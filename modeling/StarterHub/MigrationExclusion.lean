import StarterHub.MigrationJournal

/-!
# What keeps boots and the CLI apart

The advisory lock keeps boots apart from each other, and from nobody else.  To the other invocations each of them is a
party of one journal, the migrations table: it reads it once, has the pending migrations ahead and commits them, a boot
all at once and the command line one by one (`step_journal`).  As long as nobody reads while another invocation has
migrations ahead, and one of the two came by the command line, all of them exclude each other (`MixedInv`).  The first
reading that breaks this leaves the reader with a migration that the other one will have committed before.
-/

namespace StarterHub

namespace Mixed

variable {ι κ ν : Type}

/-- The invocation is at work: it has read the applied migrations, and not committed yet all that it found pending. -/
def Busy (s : Mixed ι κ ν) (x : ι ⊕ κ) : Prop := ∃ pending, s.ahead x = some pending ∧ pending ≠ []

/-- The invocation has executed the migration, in its open transaction or in one that is committed. -/
inductive Executed (s : Mixed ι κ ν) : ι ⊕ κ → ν → Prop
  | inserted {x : ι ⊕ κ} {name : ν} (h : name ∈ s.inserted x) : Executed s x name
  | boot {i : ι} {executed : List ν} {name : ν} {pending : List ν}
      (h : s.fleet.replicas i = .migrating executed (name :: pending)) (hr : s.ran i = true) : Executed s (.inl i) name
  | cli {k : κ} {name : ν} {pending : List ν} (h : s.runs k = .applying .ran name pending) : Executed s (.inr k) name
  | committed {x : ι ⊕ κ} {name : ν} (h : (x, name) ∈ s.applied) : Executed s x name

/-- Nobody reads the applied migrations while another invocation is at work, unless both are boots. -/
def Careful (s : Mixed ι κ ν) (a : MixedAction ι κ) : Prop :=
  ∀ x, a.reader = some x → ∀ y, y ≠ x → x.isRight ∨ y.isRight → ¬ s.Busy y

variable [DecidableEq ι] [DecidableEq κ] [Fintype ι] [Fintype κ] [DecidableEq ν] {migrations history : List ν}
  {s s' : Mixed ι κ ν} {a : MixedAction ι κ} {x y : ι ⊕ κ} {i : ι} {k : κ}

/-- The two ways to run migrations exclude each other. -/
structure ExclusionLaw (migrations : List ν) (s : Mixed ι κ ν) : Prop where
  -- No migration is executed by two invocations, ...
  exclusive : ∀ x y name, s.Executed x name → s.Executed y name → x = y
  -- ... none of them meets what another one has committed, ...
  unharmed : (∀ i error, step migrations s (.conflict i error) = none) ∧
    ∀ k error, step migrations s (.cli k (.conflict error)) = none
  -- ... and each of them that is not over can still return `Ok`.
  returns : ∀ x, s.isOver x = false → ∃ s', (machine migrations).Reaches s s' ∧ s'.HasReturned x

/-! ### The invariant -/

structure MixedInv (migrations : List ν) (s : Mixed ι κ ν) : Prop where
  lock : LockInv s
  journal : s.journal.Inv migrations

omit [DecidableEq ι] [DecidableEq κ] [Fintype ι] [Fintype κ] [DecidableEq ν] in
theorem mixedInv_init (hp : history <+: migrations) : MixedInv migrations (init (ι := ι) (κ := κ) history) := by
  refine ⟨lockInv_init, ?_⟩
  have hjournal : journal (init (ι := ι) (κ := κ) history) = Journal.init history := by
    simp only [journal, Journal.init, init, Fleet.init, Journal.mk.injEq, and_true, true_and]
    funext x
    cases x <;> rfl
  rw [hjournal]
  exact Journal.inv_init hp

/-- Where an invocation has the reading before it: a boot under the lock, the command line at its start. -/
def Ready (s : Mixed ι κ ν) : ι ⊕ κ → Prop
  | .inl i => s.fleet.replicas i = .locked
  | .inr k => s.runs k = .starting

/-- The invocation has read the applied migrations. -/
def hasRead (migrations : List ν) (s : Mixed ι κ ν) : ι ⊕ κ → Mixed ι κ ν
  | .inl i => { s with fleet := s.fleet.set i (.migrating [] (pendingMigrations migrations s.fleet.history)) }
  | .inr k => s.setRun k (.between (pendingMigrations migrations s.fleet.history))

private theorem ready_of_reader (h : step migrations s a = some s') (ha : a.reader = some x) :
    s.Ready x ∧ s' = s.hasRead migrations x := by
  cases step_cases h with
  | read hi => cases ha; exact ⟨hi, rfl⟩
  | cliRead hk => cases ha; exact ⟨hk, rfl⟩
  | down hr | cliDown hr => rw [hr] at ha; cases ha
  | _ => cases ha

omit [DecidableEq ι] [DecidableEq κ] [Fintype ι] [Fintype κ] [DecidableEq ν] in
/-- A boot at work has the lock. -/
private theorem holds_of_busy (h : s.Busy (.inl i)) : (s.fleet.replicas i).holds = true := by
  obtain ⟨pending, hpending, -⟩ := h
  simp only [ahead, Sum.elim_inl, Function.comp_apply] at hpending
  cases hi : s.fleet.replicas i with
  | migrating => rfl
  | _ => rw [hi] at hpending; cases hpending

/-- A careful reader is alone: the lock keeps it apart from the other boots. -/
private theorem MixedInv.idle (hs : MixedInv migrations s) (hc : Careful s a)
    (h : Mixed.step migrations s a = some s') (ha : a.reader = some x) : ∀ y, y ≠ x → ¬ s.Busy y := by
  intro y hy hbusy
  cases x with
  | inr k => exact hc _ ha y hy (.inl rfl) hbusy
  | inl i =>
    cases y with
    | inr k => exact hc _ ha _ hy (.inr rfl) hbusy
    | inl j =>
      have hlocked : s.fleet.replicas i = .locked := (ready_of_reader h ha).1
      exact hy (congrArg Sum.inl (hs.lock.unique (holds_of_busy hbusy) (by rw [hlocked]; rfl)))

theorem MixedInv.step (hn : migrations.Nodup) (hs : MixedInv migrations s) (hc : Careful s a)
    (h : Mixed.step migrations s a = some s') : MixedInv migrations s' := by
  refine ⟨hs.lock.step h, ?_⟩
  rcases step_journal h with heq | ⟨b, hb, hreader⟩
  · rw [heq]
    exact hs.journal
  · refine hs.journal.step hn ?_ hb
    cases b with
    | read x => exact hs.idle hc h (hreader x rfl)
    | append | leave => trivial

/-! ### Getting to the end -/

/-- All invocations but `x` are where they were. -/
structure Apart (x : ι ⊕ κ) (s s' : Mixed ι κ ν) : Prop where
  boots : ∀ i, .inl i ≠ x → s'.fleet.replicas i = s.fleet.replicas i
  runs : ∀ k, .inr k ≠ x → s'.runs k = s.runs k

section

variable {t : Mixed ι κ ν}

omit [DecidableEq ι] [DecidableEq κ] [Fintype ι] [Fintype κ] [DecidableEq ν] in
private theorem Apart.trans (h : Apart x s s') (h' : Apart x s' t) : Apart x s t :=
  ⟨fun i hi => (h'.boots i hi).trans (h.boots i hi), fun k hk => (h'.runs k hk).trans (h.runs k hk)⟩

omit [DecidableEq κ] [Fintype ι] [Fintype κ] [DecidableEq ν] in
private theorem apart_of_replicas {fleet : Fleet ι ν} {replica : Replica ν} (ran : ι → Bool)
    (applied : List ((ι ⊕ κ) × ν)) (h : fleet.replicas = Function.update s.fleet.replicas i replica) :
    Apart (.inl i) s { s with fleet, ran, applied } := by
  refine ⟨fun j hj => ?_, fun _ _ => rfl⟩
  rw [h]
  exact Function.update_of_ne (fun heq => hj (congrArg Sum.inl heq)) ..

omit [DecidableEq ι] [Fintype ι] [Fintype κ] [DecidableEq ν] in
private theorem apart_setRun (run : CliRun ν) : Apart (.inr k) s (s.setRun k run) :=
  ⟨fun _ _ => rfl, fun _ hj => Function.update_of_ne (fun heq => hj (congrArg Sum.inr heq)) ..⟩

omit [DecidableEq ι] [DecidableEq κ] [Fintype ι] [Fintype κ] [DecidableEq ν] in
private theorem Apart.ahead (h : Apart x s s') (hy : y ≠ x) : s'.ahead y = s.ahead y := by
  cases y with
  | inl i => exact congrArg Replica.ahead (h.boots i hy)
  | inr k => exact congrArg CliRun.ahead (h.runs k hy)

omit [DecidableEq ι] [DecidableEq κ] [Fintype ι] [Fintype κ] [DecidableEq ν] in
private theorem Apart.inserted (h : Apart x s s') (hy : y ≠ x) : s'.inserted y = s.inserted y := by
  cases y with
  | inl i => exact congrArg Replica.inserted (h.boots i hy)
  | inr k => exact congrArg CliRun.inserted (h.runs k hy)

omit [DecidableEq ι] [DecidableEq κ] [Fintype ι] [Fintype κ] [DecidableEq ν] in
private theorem Apart.isOver (h : Apart x s s') (hy : y ≠ x) : s'.isOver y = s.isOver y := by
  cases y with
  | inl i => exact congrArg Replica.isOver (h.boots i hy)
  | inr k => exact congrArg CliRun.isOver (h.runs k hy)

omit [DecidableEq ι] [DecidableEq κ] [Fintype ι] [Fintype κ] [DecidableEq ν] in
private theorem Apart.busy (h : Apart x s s') (hy : y ≠ x) : s'.Busy y ↔ s.Busy y := by
  rw [Busy, Busy, h.ahead hy]

end

omit [DecidableEq ι] [DecidableEq κ] [Fintype ι] [Fintype κ] [DecidableEq ν] in
/-- What an open transaction has inserted is still ahead of its invocation. -/
private theorem mem_ahead_of_inserted {name : ν} (h : name ∈ s.inserted x) : ∃ l, s.ahead x = some l ∧ name ∈ l := by
  cases x with
  | inl i =>
    cases hi : s.fleet.replicas i with
    | migrating executed pending =>
      simp only [Mixed.inserted, Sum.elim_inl, Function.comp_apply, hi, Replica.inserted] at h
      exact ⟨executed ++ pending, by simp [ahead, hi, Replica.ahead], List.mem_append_left _ h⟩
    | _ => simp [Mixed.inserted, hi, Replica.inserted] at h
  | inr k =>
    cases hk : s.runs k with
    | applying stage name' pending =>
      refine ⟨name' :: pending, by simp [ahead, hk, CliRun.ahead], ?_⟩
      cases stage <;> simp_all [Mixed.inserted, CliRun.inserted]
    | _ => simp [Mixed.inserted, hk, CliRun.inserted] at h

omit [DecidableEq ι] [DecidableEq κ] [Fintype ι] [Fintype κ] [DecidableEq ν] in
private theorem inserted_of_not_busy (h : ¬ s.Busy x) : s.inserted x = [] := by
  refine List.eq_nil_iff_forall_not_mem.2 fun name hname => ?_
  obtain ⟨l, hl, hmem⟩ := mem_ahead_of_inserted hname
  exact h ⟨l, hl, List.ne_nil_of_mem hmem⟩

omit [DecidableEq ι] [DecidableEq κ] in
private theorem admits_of {name : ν} (hfresh : name ∉ s.fleet.history) (hown : name ∉ s.inserted x)
    (hothers : ∀ y, y ≠ x → s.inserted y = []) : s.admits name = true := by
  simp only [admits, Bool.and_eq_true, decide_eq_true_eq]
  refine ⟨hfresh, fun y => ?_⟩
  by_cases hy : y = x
  · rw [hy]
    exact hown
  · simp [hothers y hy]

omit [DecidableEq ι] [DecidableEq κ] [Fintype ι] [Fintype κ] [DecidableEq ν] in
/-- Only a reading can be careless. -/
private theorem careful_of_reader (h : a.reader = none) : Careful s a := by
  intro x hx
  rw [h] at hx
  cases hx

variable (migrations) in
/-- The next migration of a boot is executed, when nobody else has inserted a name. -/
private theorem executes {executed pending : List ν} {name : ν}
    (hi : s.fleet.replicas i = .migrating executed (name :: pending)) (hfresh : name ∉ s.fleet.history ++ executed)
    (hothers : ∀ y, y ≠ .inl i → s.inserted y = []) :
    ∃ s', (machine migrations).ReachesBy Careful s s' ∧ Apart (.inl i) s s' ∧
      s'.fleet = s.fleet.set i (.migrating (executed ++ [name]) pending) := by
  rw [List.mem_append, not_or] at hfresh
  have hexec : ∀ ran : ι → Bool, ran i = true → Mixed.step migrations { s with ran } (.boot (.exec i)) =
      some { s with fleet := s.fleet.set i (.migrating (executed ++ [name]) pending),
                    ran := Function.update ran i false } := by
    intro ran hran
    have hadmits : admits { s with ran } name = true :=
      admits_of (x := .inl i) hfresh.1 (by simpa [inserted, hi, Replica.inserted] using hfresh.2) hothers
    simp [Mixed.step, allowed, hi, hran, hadmits, Fleet.step, ranAfter, appliedBy]
  by_cases hran : s.ran i = true
  · exact ⟨_, .head (a := .boot (.exec i)) (careful_of_reader rfl) (hexec s.ran hran) (.refl _),
      apart_of_replicas _ _ rfl, rfl⟩
  · have hrun : Mixed.step migrations s (.run i) = some { s with ran := Function.update s.ran i true } := by
      simp [Mixed.step, hi, hran]
    exact ⟨_, .head (a := .run i) (careful_of_reader rfl) hrun
      (.head (a := .boot (.exec i)) (careful_of_reader rfl) (hexec _ (Function.update_self ..))
        (.refl _)), apart_of_replicas _ _ rfl, rfl⟩

omit [DecidableEq ι] [DecidableEq κ] [Fintype ι] [Fintype κ] [DecidableEq ν] in
private theorem not_mem_of_nodup {pre post : List ν} {name : ν} (hn : migrations.Nodup)
    (h : pre ++ name :: post = migrations) : name ∉ pre := by
  rw [← h] at hn
  exact fun hmem => (List.nodup_append.1 hn).2.2 name hmem name (List.mem_cons_self ..) rfl

variable (migrations) in
private theorem finishes (hi : s.fleet.replicas i = .committed) :
    Mixed.step migrations s (.boot (.finish i)) = some { s with fleet := s.fleet.set i .returned } := by
  simp [Mixed.step, allowed, Fleet.step, hi, ranAfter, appliedBy]

variable (migrations) in
private theorem commits {executed : List ν} (hi : s.fleet.replicas i = .migrating executed []) :
    ∃ s', Mixed.step migrations s (.boot (.commit i)) = some s' ∧ Apart (.inl i) s s' ∧
      s'.fleet.replicas i = .committed ∧ s'.fleet.history = s.fleet.history ++ executed := by
  obtain ⟨fleet, hfleet, hreplicas, hhistory⟩ : ∃ fleet, s.fleet.step migrations (.commit i) = some fleet ∧
      fleet.replicas = Function.update s.fleet.replicas i .committed ∧
      fleet.history = s.fleet.history ++ executed := by simp [Fleet.step, hi]
  have hstep : Mixed.step migrations s (.boot (.commit i)) = some { s with
      fleet, ran := s.ran, applied := s.applied ++ appliedBy s.fleet (.commit i) } := by
    simp [Mixed.step, allowed, hfleet, ranAfter]
  exact ⟨_, hstep, apart_of_replicas _ _ hreplicas, by simp [hreplicas], hhistory⟩

/-- A boot that is migrating returns, when nobody else has inserted a name: it executes what is pending and commits. -/
private theorem drains_boot (hn : migrations.Nodup) {executed pending : List ν}
    (hi : s.fleet.replicas i = .migrating executed pending)
    (hlist : s.fleet.history ++ (executed ++ pending) = migrations)
    (hothers : ∀ y, y ≠ .inl i → s.inserted y = []) :
    ∃ s', (machine migrations).ReachesBy Careful s s' ∧ s'.HasReturned (.inl i) ∧ Apart (.inl i) s s' ∧
      s'.fleet.history = migrations := by
  induction pending generalizing s executed with
  | nil =>
    obtain ⟨s₁, hcommit, hapart, hcommitted, hhistory⟩ := commits migrations hi
    refine ⟨_, .head (a := .boot (.commit i)) (careful_of_reader rfl) hcommit
      (.head (a := .boot (.finish i)) (careful_of_reader rfl) (finishes migrations hcommitted) (.refl _)),
      Function.update_self .., hapart.trans (apart_of_replicas _ _ rfl), ?_⟩
    simpa [hhistory] using hlist
  | cons name pending ih =>
    have hsplit : s.fleet.history ++ executed ++ name :: pending = migrations := by simpa using hlist
    obtain ⟨s₁, hreach, hapart, hfleet⟩ := executes migrations hi (not_mem_of_nodup hn hsplit) hothers
    obtain ⟨s₂, hreach', hreturned, hapart', hhistory⟩ := ih
      (show s₁.fleet.replicas i = .migrating (executed ++ [name]) pending by simp [hfleet])
      (by simpa [hfleet] using hlist) (fun y hy => (hapart.inserted hy).trans (hothers y hy))
    exact ⟨s₂, hreach.trans hreach', hreturned, hapart.trans hapart', hhistory⟩

variable (migrations) in
/-- A run of the command line ends the transaction it is in, when nobody else has inserted a name. -/
private theorem applies {stage : Stage} {name : ν} {pending : List ν} (hk : s.runs k = .applying stage name pending)
    (hfresh : name ∉ s.fleet.history) (hothers : ∀ y, y ≠ .inr k → s.inserted y = []) :
    ∃ s', (machine migrations).ReachesBy Careful s s' ∧ Apart (.inr k) s s' ∧ s'.runs k = .between pending ∧
      s'.fleet.history = s.fleet.history ++ [name] := by
  have hinserted : ∀ s : Mixed ι κ ν, s.runs k = .applying .inserted name pending →
      ∃ s', (machine migrations).ReachesBy Careful s s' ∧ Apart (.inr k) s s' ∧ s'.runs k = .between pending ∧
        s'.fleet.history = s.fleet.history ++ [name] := by
    intro s hk
    have hstep : Mixed.step migrations s (.cli k .commit) = some (s.commitRun k name pending) := by
      simp [Mixed.step, stepCli, hk]
    exact ⟨_, .head (a := .cli k .commit) (careful_of_reader rfl) hstep (.refl _),
      ⟨fun _ _ => rfl, (apart_setRun (.between pending)).runs⟩, Function.update_self .., rfl⟩
  have hran : ∀ s : Mixed ι κ ν, s.runs k = .applying .ran name pending → name ∉ s.fleet.history →
      (∀ y, y ≠ .inr k → s.inserted y = []) →
      ∃ s', (machine migrations).ReachesBy Careful s s' ∧ Apart (.inr k) s s' ∧ s'.runs k = .between pending ∧
        s'.fleet.history = s.fleet.history ++ [name] := by
    intro s hk hfresh hothers
    have hadmits := admits_of (x := .inr k) hfresh (by simp [inserted, hk, CliRun.inserted]) hothers
    have hstep : Mixed.step migrations s (.cli k .insert) = some (s.setRun k (.applying .inserted name pending)) := by
      simp [Mixed.step, stepCli, hk, hadmits]
    obtain ⟨s', hreach, hapart, hbetween, hhistory⟩ := hinserted (s.setRun k (.applying .inserted name pending))
      (Function.update_self ..)
    exact ⟨s', .head (a := .cli k .insert) (careful_of_reader rfl) hstep hreach, (apart_setRun _).trans hapart,
      hbetween, hhistory⟩
  cases stage with
  | inserted => exact hinserted s hk
  | ran => exact hran s hk hfresh hothers
  | begun =>
    have hstep : Mixed.step migrations s (.cli k .run) = some (s.setRun k (.applying .ran name pending)) := by
      simp [Mixed.step, stepCli, hk]
    have happly := apart_setRun (s := s) (k := k) (.applying .ran name pending)
    obtain ⟨s', hreach, hapart, hbetween, hhistory⟩ := hran (s.setRun k (.applying .ran name pending))
      (Function.update_self ..) hfresh fun y hy => (happly.inserted hy).trans (hothers y hy)
    exact ⟨s', .head (a := .cli k .run) (careful_of_reader rfl) hstep hreach, happly.trans hapart, hbetween, hhistory⟩

/-- A run of the command line returns, when nobody else has inserted a name: it applies what is pending, one by one. -/
private theorem drains_between (hn : migrations.Nodup) {pending : List ν} (hk : s.runs k = .between pending)
    (hlist : s.fleet.history ++ pending = migrations) (hothers : ∀ y, y ≠ .inr k → s.inserted y = []) :
    ∃ s', (machine migrations).ReachesBy Careful s s' ∧ s'.HasReturned (.inr k) ∧ Apart (.inr k) s s' ∧
      s'.fleet.history = migrations := by
  induction pending generalizing s with
  | nil =>
    have hstep : Mixed.step migrations s (.cli k .finish) = some (s.setRun k .returned) := by
      simp [Mixed.step, stepCli, hk]
    exact ⟨_, .head (a := .cli k .finish) (careful_of_reader rfl) hstep (.refl _), Function.update_self ..,
      apart_setRun _, by simpa [setRun] using hlist⟩
  | cons name pending ih =>
    have hstep : Mixed.step migrations s (.cli k .begin) = some (s.setRun k (.applying .begun name pending)) := by
      simp [Mixed.step, stepCli, hk]
    have hbegin := apart_setRun (s := s) (k := k) (.applying .begun name pending)
    obtain ⟨s₁, hreach, hapart, hbetween, hhistory⟩ :=
      applies migrations (s := s.setRun k (.applying .begun name pending)) (Function.update_self ..)
        (not_mem_of_nodup hn hlist) fun y hy => (hbegin.inserted hy).trans (hothers y hy)
    have hapart := hbegin.trans hapart
    obtain ⟨s₂, hreach', hreturned, hapart', hhistory'⟩ := ih hbetween (by rw [hhistory]; simpa [setRun] using hlist)
      fun y hy => (hapart.inserted hy).trans (hothers y hy)
    exact ⟨s₂, .head (a := .cli k .begin) (careful_of_reader rfl) hstep (hreach.trans hreach'), hreturned,
      hapart.trans hapart', hhistory'⟩

/-- Whoever has the rest of the migrations ahead returns, when nobody else has inserted a name, and leaves the others
alone. -/
private theorem drains (hn : migrations.Nodup) {pending : List ν} (hx : s.ahead x = some pending)
    (hlist : s.fleet.history ++ pending = migrations) (hothers : ∀ y, y ≠ x → s.inserted y = []) :
    ∃ s', (machine migrations).ReachesBy Careful s s' ∧ s'.HasReturned x ∧ Apart x s s' ∧
      s'.fleet.history = migrations := by
  cases x with
  | inl i =>
    simp only [ahead, Sum.elim_inl, Function.comp_apply] at hx
    cases hi : s.fleet.replicas i with
    | migrating executed pending' =>
      rw [hi] at hx
      cases hx
      exact drains_boot hn hi hlist hothers
    | _ => rw [hi] at hx; cases hx
  | inr k =>
    simp only [ahead, Sum.elim_inr, Function.comp_apply] at hx
    cases hk : s.runs k with
    | between pending' =>
      rw [hk] at hx
      cases hx
      exact drains_between hn hk hlist hothers
    | applying stage name pending' =>
      rw [hk] at hx
      cases hx
      obtain ⟨s₁, hreach, hapart, hbetween, hhistory⟩ :=
        applies migrations hk (not_mem_of_nodup hn hlist) hothers
      obtain ⟨s₂, hreach', hreturned, hapart', hhistory'⟩ := drains_between hn hbetween
        (by rw [hhistory]; simpa using hlist) fun y hy => (hapart.inserted hy).trans (hothers y hy)
      exact ⟨s₂, hreach.trans hreach', hreturned, hapart.trans hapart', hhistory'⟩
    | _ => rw [hk] at hx; cases hx

variable (migrations) in
private theorem reads (hx : s.Ready x) :
    ∃ a : MixedAction ι κ, a.reader = some x ∧ Mixed.step migrations s a = some (s.hasRead migrations x) := by
  cases x with
  | inl i =>
    have hi : s.fleet.replicas i = .locked := hx
    exact ⟨.boot (.read i), rfl, by simp [Mixed.step, allowed, Fleet.step, hi, ranAfter, appliedBy, hasRead]⟩
  | inr k =>
    have hk : s.runs k = .starting := hx
    exact ⟨.cli k .read, rfl, by simp [Mixed.step, stepCli, hk, hasRead]⟩

omit [Fintype ι] [Fintype κ] in
variable (migrations s x) in
/-- What a reading changes: the pending migrations are ahead of the reader. -/
private theorem hasRead_spec : Apart x s (s.hasRead migrations x) ∧
    (s.hasRead migrations x).ahead x = some (pendingMigrations migrations s.fleet.history) ∧
    (s.hasRead migrations x).inserted x = [] ∧ (s.hasRead migrations x).fleet.history = s.fleet.history := by
  cases x with
  | inl i => exact ⟨apart_of_replicas _ _ rfl, by simp [hasRead, ahead, Replica.ahead],
      by simp [hasRead, inserted, Replica.inserted], rfl⟩
  | inr k => exact ⟨apart_setRun _, by simp [hasRead, ahead, setRun, CliRun.ahead],
      by simp [hasRead, inserted, setRun, CliRun.inserted], rfl⟩

/-- When nobody else is at work, whoever reads next or has read returns, and leaves the others alone. -/
private theorem returns_idle (hn : migrations.Nodup) (hs : MixedInv migrations s) (hidle : ∀ y, y ≠ x → ¬ s.Busy y)
    (hx : s.Ready x ∨ ∃ pending, s.ahead x = some pending) :
    ∃ s', (machine migrations).ReachesBy Careful s s' ∧ s'.HasReturned x ∧ Apart x s s' := by
  have hothers : ∀ y, y ≠ x → s.inserted y = [] := fun y hy => inserted_of_not_busy (hidle y hy)
  rcases hx with hx | ⟨pending, hx⟩
  · obtain ⟨a, hreader, hread⟩ := reads migrations hx
    obtain ⟨hapart, hahead, -, hhistory⟩ := hasRead_spec migrations s x
    have hcareful : Careful s a := by
      intro y hy z hz _
      rw [hreader] at hy
      cases hy
      exact hidle z hz
    obtain ⟨s', hreach, hreturned, hapart', -⟩ := drains hn hahead
      (by rw [hhistory]; exact Journal.append_missing hn hs.journal.ordered)
      fun y hy => (hapart.inserted hy).trans (hothers y hy)
    exact ⟨s', .head hcareful hread hreach, hreturned, hapart.trans hapart'⟩
  · obtain ⟨s', hreach, hreturned, hapart, -⟩ := drains hn hx (hs.journal.onTrack x pending hx) hothers
    exact ⟨s', hreach, hreturned, hapart⟩

omit [DecidableEq ι] [DecidableEq κ] [Fintype ι] [Fintype κ] [DecidableEq ν] in
private theorem not_busy_of_returned (h : s.HasReturned x) : ¬ s.Busy x := by
  rintro ⟨pending, hpending, -⟩
  cases x with
  | inl i =>
    have hi : s.fleet.replicas i = .returned := h
    simp [ahead, hi, Replica.ahead] at hpending
  | inr k =>
    have hk : s.runs k = .returned := h
    simp [ahead, hk, CliRun.ahead] at hpending

omit [DecidableEq ι] [DecidableEq κ] [Fintype ι] [Fintype κ] [DecidableEq ν] in
/-- Once `y` has returned and the others have stayed where they were, nobody but `x` is at work. -/
private theorem idle_of_returned (hreturned : s'.HasReturned y) (hapart : Apart y s s')
    (hidle : ∀ z, z ≠ x → z ≠ y → ¬ s.Busy z) : ∀ z, z ≠ x → ¬ s'.Busy z := by
  intro z hzx
  by_cases hzy : z = y
  · subst hzy
    exact not_busy_of_returned hreturned
  · rw [hapart.busy hzy]
    exact hidle z hzx hzy

/-- Whoever else is at work can get out of the way of `x`. -/
private theorem clears (hn : migrations.Nodup) (hs : MixedInv migrations s) (x : ι ⊕ κ) :
    ∃ s', (machine migrations).ReachesBy Careful s s' ∧ MixedInv migrations s' ∧
      s'.isOver x = s.isOver x ∧ ∀ y, y ≠ x → ¬ s'.Busy y := by
  by_cases hbusy : ∃ y, y ≠ x ∧ s.Busy y
  · obtain ⟨y, hyx, hy⟩ := hbusy
    have halone : ∀ z, z ≠ y → ¬ s.Busy z := fun z hz hbz => hz (hs.journal.alone z y hbz hy)
    obtain ⟨s', hreach, hreturned, hapart⟩ := returns_idle hn hs halone (.inr (hy.imp fun _ h => h.1))
    exact ⟨s', hreach, hreach.invariant (fun _ _ _ => MixedInv.step hn) hs, hapart.isOver (Ne.symm hyx),
      idle_of_returned hreturned hapart fun z _ => halone z⟩
  · exact ⟨s, .refl s, hs, rfl, fun y hy hb => hbusy ⟨y, hy, hb⟩⟩

/-- A boot takes the lock when it is free, and returns when nobody else is at work. -/
private theorem returns_unlocked (hn : migrations.Nodup) (hs : MixedInv migrations s)
    (hidle : ∀ y, y ≠ .inl i → ¬ s.Busy y) (hi : s.fleet.replicas i = .begun) (hl : s.fleet.lock = none) :
    ∃ s', (machine migrations).Reaches s s' ∧ s'.HasReturned (.inl i) := by
  obtain ⟨fleet, hfleet, hreplicas⟩ : ∃ fleet, s.fleet.step migrations (.lock i) = some fleet ∧
      fleet.replicas = Function.update s.fleet.replicas i .locked := by simp [Fleet.step, hi, hl]
  have hstep : Mixed.step migrations s (.boot (.lock i)) = some { s with
      fleet, ran := s.ran, applied := s.applied ++ [] } := by simp [Mixed.step, allowed, hfleet, ranAfter, appliedBy]
  have hapart := apart_of_replicas (s := s) s.ran (s.applied ++ []) hreplicas
  obtain ⟨s', hreach, hreturned, -⟩ := returns_idle (x := .inl i) hn (hs.step hn (careful_of_reader rfl) hstep)
    (fun y hy => by rw [hapart.busy hy]; exact hidle y hy) (.inl (by simp [Ready, hreplicas]))
  have hrun := Transition.Machine.ReachesBy.head (a := .boot (.lock i)) (careful_of_reader rfl) hstep hreach
  exact ⟨s', hrun.reaches, hreturned⟩

/-- A boot that has begun returns, when nobody else is at work: it waits for the boot that holds the lock. -/
private theorem returns_begun (hn : migrations.Nodup) (hs : MixedInv migrations s)
    (hidle : ∀ y, y ≠ .inl i → ¬ s.Busy y) (hi : s.fleet.replicas i = .begun) :
    ∃ s', (machine migrations).Reaches s s' ∧ s'.HasReturned (.inl i) := by
  cases hl : s.fleet.lock with
  | none => exact returns_unlocked hn hs hidle hi hl
  | some j =>
    have hholds := (hs.lock j).1 hl
    have hji : j ≠ i := by
      rintro rfl
      rw [hi] at hholds
      cases hholds
    have hnobody : ∀ y, ¬ s.Busy y := by
      intro y
      by_cases hy : y = .inl i
      · subst hy
        rintro ⟨pending, hpending, -⟩
        simp [ahead, hi, Replica.ahead] at hpending
      · exact hidle y hy
    have hj : s.Ready (.inl j) ∨ ∃ pending, s.ahead (.inl j) = some pending := by
      cases hr : s.fleet.replicas j with
      | locked => exact .inl hr
      | migrating executed pending => exact .inr ⟨executed ++ pending, by simp [ahead, hr, Replica.ahead]⟩
      | _ => rw [hr] at hholds; cases hholds
    obtain ⟨s₁, hreach, hreturned, hapart⟩ := returns_idle hn hs (fun y _ => hnobody y) hj
    have hs₁ := hreach.invariant (fun _ _ _ => MixedInv.step hn) hs
    have hfree : s₁.fleet.lock = none := by
      cases hl' : s₁.fleet.lock with
      | none => rfl
      | some m =>
        have hm := (hs₁.lock m).1 hl'
        by_cases hmj : m = j
        · subst hmj
          have hr : s₁.fleet.replicas m = .returned := hreturned
          rw [hr] at hm
          cases hm
        · rw [hapart.boots m (by simpa using hmj)] at hm
          exact absurd (hs.lock.unique hm hholds) hmj
    obtain ⟨s₂, hreach', h⟩ := returns_unlocked hn hs₁ (idle_of_returned hreturned hapart fun y _ _ => hnobody y)
      ((hapart.boots i (by simpa using hji.symm)).trans hi) hfree
    exact ⟨s₂, hreach.reaches.trans hreach', h⟩

/-- An invocation that is not over can return. -/
private theorem MixedInv.returns (hn : migrations.Nodup) (hs : MixedInv migrations s) (hx : s.isOver x = false) :
    ∃ s', (machine migrations).Reaches s s' ∧ s'.HasReturned x := by
  obtain ⟨s₁, hreach, hs₁, hover, hidle⟩ := clears hn hs x
  rw [← hover] at hx
  suffices h : ∃ s', (machine migrations).Reaches s₁ s' ∧ s'.HasReturned x by
    obtain ⟨s', hreach', hreturned⟩ := h
    exact ⟨s', hreach.reaches.trans hreach', hreturned⟩
  have hreads : (s₁.Ready x ∨ ∃ pending, s₁.ahead x = some pending) →
      ∃ s', (machine migrations).Reaches s₁ s' ∧ s'.HasReturned x := by
    intro h
    obtain ⟨s', hreach', hreturned, -⟩ := returns_idle hn hs₁ hidle h
    exact ⟨s', hreach'.reaches, hreturned⟩
  cases x with
  | inl i =>
    cases hi : s₁.fleet.replicas i with
    | booting =>
      obtain ⟨fleet, hfleet, hreplicas⟩ : ∃ fleet, s₁.fleet.step migrations (.begin i) = some fleet ∧
          fleet.replicas = Function.update s₁.fleet.replicas i .begun := by simp [Fleet.step, hi]
      have hstep : Mixed.step migrations s₁ (.boot (.begin i)) = some { s₁ with
          fleet, ran := s₁.ran, applied := s₁.applied ++ [] } := by
        simp [Mixed.step, allowed, hfleet, ranAfter, appliedBy]
      have hapart := apart_of_replicas (s := s₁) s₁.ran (s₁.applied ++ []) hreplicas
      obtain ⟨s', h, hreturned⟩ := returns_begun hn (hs₁.step hn (careful_of_reader rfl) hstep)
        (fun y hy => by rw [hapart.busy hy]; exact hidle y hy) (by simp [hreplicas])
      exact ⟨s', Relation.ReflTransGen.head ⟨.boot (.begin i), hstep⟩ h, hreturned⟩
    | begun => exact returns_begun hn hs₁ hidle hi
    | locked => exact hreads (.inl hi)
    | migrating executed pending => exact hreads (.inr ⟨executed ++ pending, by simp [ahead, hi, Replica.ahead]⟩)
    | committed =>
      exact ⟨_, Relation.ReflTransGen.single ⟨.boot (.finish i), finishes migrations hi⟩, Function.update_self ..⟩
    | returned | failed | crashed =>
      simp only [Mixed.isOver, hi, Replica.isOver] at hx
      cases hx
  | inr k =>
    cases hk : s₁.runs k with
    | starting => exact hreads (.inl hk)
    | between pending => exact hreads (.inr ⟨pending, by simp [ahead, hk, CliRun.ahead]⟩)
    | applying stage name pending => exact hreads (.inr ⟨name :: pending, by simp [ahead, hk, CliRun.ahead]⟩)
    | returned | failed | crashed =>
      simp only [Mixed.isOver, hk, CliRun.isOver] at hx
      cases hx

/-! ### The law -/

omit [DecidableEq ι] [DecidableEq κ] [Fintype ι] [Fintype κ] [DecidableEq ν] in
/-- What an invocation has executed is ahead of it still, or committed. -/
private theorem has_of_executed {name : ν} (h : s.Executed x name) : s.journal.Has x name := by
  cases h with
  | inserted h => exact .inl (mem_ahead_of_inserted h)
  | @boot i executed _ pending h _ =>
    exact .inl ⟨executed ++ name :: pending, by simp [journal, ahead, h, Replica.ahead], by simp⟩
  | @cli k _ pending h => exact .inl ⟨name :: pending, by simp [journal, ahead, h, CliRun.ahead], by simp⟩
  | committed h => exact .inr h

/-- None of the next migrations is committed. -/
private theorem MixedInv.unharmed (hn : migrations.Nodup) (hs : MixedInv migrations s) :
    (∀ i error, Mixed.step migrations s (.conflict i error) = none) ∧
      ∀ k error, Mixed.step migrations s (.cli k (.conflict error)) = none := by
  refine ⟨fun i error => ?_, fun k error => ?_⟩
  · cases hi : s.fleet.replicas i with
    | migrating executed pending =>
      cases pending with
      | nil => simp [Mixed.step, hi]
      | cons name pending =>
        have hlist := hs.journal.onTrack (.inl i) (executed ++ name :: pending) (ahead_inl hi)
        rw [← List.append_assoc] at hlist
        have hfresh : name ∉ s.fleet.history ++ executed := not_mem_of_nodup hn hlist
        simp only [Mixed.step, hi, if_neg hfresh]
    | _ => simp [Mixed.step, hi]
  · cases hk : s.runs k with
    | applying stage name pending =>
      have hfresh : name ∉ s.fleet.history :=
        not_mem_of_nodup hn (hs.journal.onTrack (.inr k) (name :: pending) (ahead_inr hk))
      simp [Mixed.step, stepCli, hk, hfresh]
    | _ => simp [Mixed.step, stepCli, hk]

/-- A reading behind the back of an invocation at work: once the other one has committed, the reader collides. -/
private theorem MixedInv.collides (hn : migrations.Nodup) (hs : MixedInv migrations s) (hyx : y ≠ x)
    (hbusy : s.Busy y) :
    ∃ t, (machine migrations).Reaches (s.hasRead migrations x) t ∧ ¬ ExclusionLaw migrations t := by
  obtain ⟨pending, hy, hne⟩ := hbusy
  obtain ⟨hapart, hahead, hinserted, hhistory⟩ := hasRead_spec migrations s x
  -- both have the same migrations before them
  have hsame : pendingMigrations migrations s.fleet.history = pending := hs.journal.missing_eq hn hy
  have hlist := hs.journal.onTrack y pending hy
  have hothers : ∀ z, z ≠ y → (s.hasRead migrations x).inserted z = [] := by
    intro z hz
    by_cases hzx : z = x
    · rw [hzx]
      exact hinserted
    · rw [hapart.inserted hzx]
      exact inserted_of_not_busy fun hb => hz (hs.journal.alone z y hb ⟨pending, hy, hne⟩)
  obtain ⟨t, hreach, -, hrest, hall⟩ := drains hn ((hapart.ahead hyx).trans hy) (by rw [hhistory]; exact hlist) hothers
  obtain ⟨name, rest, rfl⟩ := List.exists_cons_of_ne_nil hne
  have hmem : name ∈ t.fleet.history := by
    rw [hall, ← hlist]
    exact List.mem_append_right _ (List.mem_cons_self ..)
  cases x with
  | inl i =>
    have hi : t.fleet.replicas i = .migrating [] (name :: rest) := by
      rw [hrest.boots i (Ne.symm hyx), ← hsame]
      exact Function.update_self ..
    refine ⟨t, hreach.reaches, fun hlaw => ?_⟩
    have hconflict := hlaw.unharmed.1 i ⟨"duplicate key value violates unique constraint"⟩
    simp [Mixed.step, hi, hmem] at hconflict
  | inr k =>
    have hk : t.runs k = .between (name :: rest) := by
      rw [hrest.runs k (Ne.symm hyx), ← hsame]
      exact Function.update_self ..
    have hbegin : Mixed.step migrations t (.cli k .begin) = some (t.setRun k (.applying .begun name rest)) := by
      simp [Mixed.step, stepCli, hk]
    refine ⟨_, hreach.reaches.tail (a := .cli k .begin) hbegin, fun hlaw => ?_⟩
    have hconflict := hlaw.unharmed.2 k ⟨"duplicate key value violates unique constraint"⟩
    simp [Mixed.step, stepCli, setRun, hmem] at hconflict

/-- A step that is not careful can be followed by a collision. -/
private theorem MixedInv.careless (hn : migrations.Nodup) (hs : MixedInv migrations s)
    (h : Mixed.step migrations s a = some s') (hc : ¬ Careful s a) :
    ∃ t, (machine migrations).Reaches s' t ∧ ¬ ExclusionLaw migrations t := by
  simp only [Careful, not_forall, not_not] at hc
  obtain ⟨x, ha, y, hyx, -, hbusy⟩ := hc
  obtain ⟨-, rfl⟩ := ready_of_reader h ha
  exact hs.collides hn hyx hbusy

/-- In every run whose readings are careful, the two ways to run migrations exclude each other; after a reading that is
not, they may collide. -/
theorem migration_exclusion (hn : migrations.Nodup) (hp : history <+: migrations)
    (h : (machine migrations).ReachesBy Careful (init history) s) :
    ExclusionLaw migrations s ∧ ∀ a s', step migrations s a = some s' → ¬ Careful s a →
      ∃ t, (machine migrations).Reaches s' t ∧ ¬ ExclusionLaw migrations t := by
  have hs : MixedInv migrations s := h.invariant (fun _ _ _ => MixedInv.step hn) (mixedInv_init hp)
  exact ⟨⟨fun x y name hx hy => hs.journal.exclusive hn (has_of_executed hx) (has_of_executed hy), hs.unharmed hn,
    fun x hx => hs.returns hn hx⟩, fun a s' h hc => hs.careless hn h hc⟩

/-- The command line has migrated before the boot, which holds the lock by then, reads the history. -/
def takingTurns : Mixed Unit Unit String :=
  ((machine ["a"]).run (init []) [.boot (.begin ()), .boot (.lock ()), .cli () .read, .cli () .begin, .cli () .run,
    .cli () .insert, .cli () .commit, .boot (.read ())]).getD (init [])

theorem migration_exclusion_turns : takingTurns.fleet.history = ["a"] ∧ ExclusionLaw ["a"] takingTurns := by
  refine ⟨rfl, (migration_exclusion (by decide) List.nil_prefix ?_).1⟩
  refine .head (a := .boot (.begin ())) (careful_of_reader rfl) rfl <|
    .head (a := .boot (.lock ())) (careful_of_reader rfl) rfl <|
    .head (a := .cli () .read) (fun x hx y hy _ hb => ?_) rfl <|
    .head (a := .cli () .begin) (careful_of_reader rfl) rfl <|
    .head (a := .cli () .run) (careful_of_reader rfl) rfl <|
    .head (a := .cli () .insert) (careful_of_reader rfl) rfl <|
    .head (a := .cli () .commit) (careful_of_reader rfl) rfl <|
    .head (a := .boot (.read ())) (fun x hx y hy _ hb => ?_) rfl (.refl _)
  · cases hx
    obtain ⟨pending, h, -⟩ := hb
    cases y with
    | inl => cases h
    | inr => exact hy rfl
  · cases hx
    obtain ⟨pending, h, hne⟩ := hb
    cases y with
    | inl => exact hy rfl
    | inr => cases h; exact hne rfl

/-- Both read the empty history and run the statements before the boot commits. -/
def collision : List (MixedAction Unit Unit) :=
  [.boot (.begin ()), .boot (.lock ()), .boot (.read ()), .cli () .read, .run (), .cli () .begin, .cli () .run,
    .boot (.exec ()), .boot (.commit ())]

def collided : Mixed Unit Unit String := ((machine ["a"]).run (init []) collision).getD (init [])

/-- The migration has been executed twice, and the command line is about to fail. -/
theorem migration_exclusion_fails : (machine ["a"]).Reaches (init []) collided ∧ ¬ ExclusionLaw ["a"] collided := by
  refine ⟨Transition.Machine.reaches_of_run (l := collision) rfl, fun hlaw => ?_⟩
  have hboot : collided.Executed (.inl ()) "a" := .committed (List.mem_singleton_self _)
  have hcli : collided.Executed (.inr ()) "a" := .cli rfl
  exact absurd (hlaw.exclusive _ _ "a" hboot hcli) (by decide)

end Mixed

end StarterHub
