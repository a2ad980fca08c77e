import StarterHub.Lib.Machine
import StarterHub.Job
import Mathlib.Data.List.Nodup

/-!
# Roster registration (`cron/src/job/mod.rs`, `cron/src/server.rs`)

`register` walks a roster: every job must bring a new name, a schedule the engine's constructor accepts, and find
`JobScheduler::add` willing.  It stops at the first job that does not, and what it added before stays in the scheduler;
but `Server::new` then hands no server out, and nobody else can start the engine.
-/

namespace StarterHub

/-- What the crate asks of `tokio-cron-scheduler`, errors by their `Display`: whether `CronJob::new_async` rejects a
schedule, and whether `JobScheduler::add` refuses a job next to those already added. -/
structure CronApi (χ : Type) where
  rejects : String → Option String
  refuses : List χ → χ → Option String

/-- A `CronJob`, by what its closure captured: the job, its gate and its handle on the tracker, these by address. -/
structure CronJob where
  job : Job
  gate : Nat
  tracker : Nat
  deriving DecidableEq, Repr

structure JobScheduler where
  jobs : List CronJob
  started : Bool
  deriving DecidableEq, Repr

/-- `JobScheduler::add`. -/
def JobScheduler.add (api : CronApi CronJob) (self : JobScheduler) (cronJob : CronJob) : Except String JobScheduler :=
  match api.refuses self.jobs cronJob with
  | some error => .error error
  | none => .ok { self with jobs := self.jobs ++ [cronJob] }

/-- What `register` works on: the names seen, the scheduler, and the gates allocated so far, by address. -/
structure Registration where
  names : List String
  scheduler : JobScheduler
  gates : List Semaphore
  deriving DecidableEq, Repr

/-- `into_cron_job`: the gate is allocated first, then the schedule is parsed. -/
def intoCronJob (api : CronApi CronJob) (job : Job) (tracker : Nat) (gates : List Semaphore) :
    Except String CronJob × List Semaphore :=
  let gate := gates.length
  let gates := gates ++ [.new 1]
  match api.rejects job.schedule with
  | some error => (.error error, gates)
  | none => (.ok ⟨job, gate, tracker⟩, gates)

/-- The loop of `register` over what is left of the roster. -/
def registerLoop (api : CronApi CronJob) (tracker : Nat) :
    Registration → List Job → Except AnyhowError Unit × Registration
  | s, [] => (.ok (), s)
  | s, job :: rest =>
    if job.name ∈ s.names then (.error ⟨"duplicate job name in the roster: " ++ job.name, []⟩, s)
    else
      let s := { s with names := job.name :: s.names }
      match intoCronJob api job tracker s.gates with
      | (.error error, gates) => (.error ⟨error, []⟩, { s with gates })
      | (.ok cronJob, gates) =>
        match s.scheduler.add api cronJob with
        | .error error => (.error ⟨error, []⟩, { s with gates })
        | .ok scheduler => registerLoop api tracker { s with scheduler, gates } rest

/-- `register` of a roster. -/
def register (api : CronApi CronJob) (roster : List Job) (scheduler : JobScheduler) (tracker : Nat)
    (gates : List Semaphore) : Except AnyhowError Unit × Registration :=
  registerLoop api tracker ⟨[], scheduler, gates⟩ roster

/-! ### The server -/

/-- `cron::server::Server`. -/
structure BuiltCron where
  inner : JobScheduler
  tracker : Nat
  deriving DecidableEq, Repr

/-- The engine of a process: its scheduler, the server around it while somebody has it, and the jobs whose closure was
called. -/
structure CronHost where
  scheduler : JobScheduler
  server : Except AnyhowError BuiltCron
  ticked : List CronJob
  deriving DecidableEq, Repr

/-- `Server::new`, once the engine exists; `tracker` is the address of the new tracker. -/
def CronHost.new (api : CronApi CronJob) (roster : List Job) (tracker : Nat) (gates : List Semaphore) : CronHost :=
  match register api roster ⟨[], false⟩ tracker gates with
  | (.ok (), s) => ⟨s.scheduler, .ok ⟨s.scheduler, tracker⟩, []⟩
  | (.error error, s) => ⟨s.scheduler, .error (error.context "failed to register the job roster"), []⟩

/-- `Server::run` gets to the result of `JobScheduler::start`, or the engine calls the closure of its job `k`. -/
inductive CronHostAction where
  | run (start : Except String Unit)
  | tick (k : Nat)

namespace CronHost

/-- Only `Server::run` starts the engine, and it consumes the server; only a started engine ticks. -/
def step (s : CronHost) : CronHostAction → Option CronHost
  | .run start =>
    match s.server with
    | .ok server =>
      match start with
      | .ok () =>
        some { s with scheduler := { server.inner with started := true }, server := .error ⟨"consumed by run", []⟩ }
      | .error error => some { s with server := .error ⟨"failed to start the cron engine", [error]⟩ }
    | .error _ => none
  | .tick k =>
    if s.scheduler.started then (s.scheduler.jobs[k]?).map fun cronJob => { s with ticked := s.ticked ++ [cronJob] }
    else none

def machine : Transition.Machine CronHost CronHostAction := ⟨step⟩

end CronHost

/-! ### The loop -/

/-- The jobs as they are added, with one gate each from the address `gate` on. -/
def cronJobs (tracker : Nat) : Nat → List Job → List CronJob
  | _, [] => []
  | gate, job :: rest => ⟨job, gate, tracker⟩ :: cronJobs tracker (gate + 1) rest

/-- The job stops the registration, after the jobs `before` were added. -/
def Offends (api : CronApi CronJob) (tracker gate : Nat) (before : List Job) (job : Job) : Prop :=
  job.name ∈ before.map Job.name ∨ (api.rejects job.schedule).isSome ∨
    (api.refuses (cronJobs tracker gate before) ⟨job, gate + before.length, tracker⟩).isSome

/-- None of the jobs stops the registration, after the jobs `before` were added. -/
def Clean (api : CronApi CronJob) (tracker gate : Nat) : List Job → List Job → Prop
  | _, [] => True
  | before, job :: rest => ¬ Offends api tracker gate before job ∧ Clean api tracker gate (before ++ [job]) rest

variable {api : CronApi CronJob} {tracker gate : Nat}

theorem cronJobs_append (before after : List Job) :
    cronJobs tracker gate (before ++ after) =
      cronJobs tracker gate before ++ cronJobs tracker (gate + before.length) after := by
  induction before generalizing gate with
  | nil => rfl
  | cons job before ih =>
    rw [List.cons_append, cronJobs, cronJobs, ih, List.cons_append, List.length_cons, Nat.add_assoc,
      Nat.add_comm 1]

theorem map_job_cronJobs (roster : List Job) : (cronJobs tracker gate roster).map CronJob.job = roster := by
  induction roster generalizing gate with
  | nil => rfl
  | cons job rest ih => rw [cronJobs, List.map_cons, ih]

theorem map_gate_cronJobs (roster : List Job) :
    (cronJobs tracker gate roster).map CronJob.gate = List.range' gate roster.length := by
  induction roster generalizing gate with
  | nil => rfl
  | cons job rest ih => rw [cronJobs, List.map_cons, ih, List.length_cons, List.range'_succ]

theorem tracker_of_mem_cronJobs {roster : List Job} {cronJob : CronJob} (h : cronJob ∈ cronJobs tracker gate roster) :
    cronJob.tracker = tracker := by
  induction roster generalizing gate with
  | nil => cases h
  | cons job rest ih =>
    rcases List.mem_cons.1 h with rfl | h
    · rfl
    · exact ih h

theorem clean_append {before mid rest : List Job} :
    Clean api tracker gate before (mid ++ rest) ↔
      Clean api tracker gate before mid ∧ Clean api tracker gate (before ++ mid) rest := by
  induction mid generalizing before with
  | nil => simp [Clean]
  | cons job mid ih => simp [Clean, ih, and_assoc]

/-- The registration after the jobs `before` were added, one gate each from the address `gate` on. -/
structure Added (tracker : Nat) (gates : List Semaphore) (before : List Job) (s : Registration) : Prop where
  names : ∀ name, name ∈ s.names ↔ name ∈ before.map Job.name
  jobs : s.scheduler.jobs = cronJobs tracker gates.length before
  gates : s.gates = gates ++ List.replicate before.length (.new 1)
  stopped : s.scheduler.started = false

variable (api) in
/-- One turn of the loop: a job that offends stops it with an error and nothing added, any other job is added. -/
theorem registerLoop_cons {gates : List Semaphore} {before : List Job} {s : Registration}
    (hs : Added tracker gates before s) (job : Job) (rest : List Job) :
    (Offends api tracker gates.length before job ∧
      ∃ error s', registerLoop api tracker s (job :: rest) = (.error error, s') ∧ s'.scheduler = s.scheduler ∧
        (job.name ∈ before.map Job.name → error = ⟨"duplicate job name in the roster: " ++ job.name, []⟩)) ∨
    (¬ Offends api tracker gates.length before job ∧
      ∃ s', registerLoop api tracker s (job :: rest) = registerLoop api tracker s' rest ∧
        Added tracker gates (before ++ [job]) s') := by
  have hlen : s.gates.length = gates.length + before.length := by simp [hs.gates]
  by_cases hname : job.name ∈ s.names
  · refine .inl ⟨.inl ((hs.names _).1 hname), _, s, ?_, rfl, fun _ => rfl⟩
    rw [registerLoop, if_pos hname]
  · have hfresh : job.name ∉ before.map Job.name := fun h => hname ((hs.names _).2 h)
    cases hrejects : api.rejects job.schedule with
    | some error =>
      refine .inl ⟨.inr (.inl (by rw [hrejects]; rfl)), ⟨error, []⟩,
        { s with names := job.name :: s.names, gates := s.gates ++ [.new 1] }, ?_, rfl, fun h => absurd h hfresh⟩
      simp [registerLoop, hname, intoCronJob, hrejects]
    | none =>
      cases hrefuses : api.refuses s.scheduler.jobs ⟨job, s.gates.length, tracker⟩ with
      | some error =>
        refine .inl ⟨.inr (.inr ?_), ⟨error, []⟩,
          { s with names := job.name :: s.names, gates := s.gates ++ [.new 1] }, ?_, rfl, fun h => absurd h hfresh⟩
        · rw [← hs.jobs, ← hlen, hrefuses]
          rfl
        · simp [registerLoop, hname, intoCronJob, hrejects, JobScheduler.add, hrefuses]
      | none =>
        refine .inr ⟨?_, ⟨job.name :: s.names,
          { s.scheduler with jobs := s.scheduler.jobs ++ [⟨job, s.gates.length, tracker⟩] }, s.gates ++ [.new 1]⟩,
          ?_, fun name => ?_, ?_, ?_, hs.stopped⟩
        · rintro (h | h | h)
          · exact hfresh h
          · rw [hrejects] at h
            cases h
          · rw [← hs.jobs, ← hlen, hrefuses] at h
            cases h
        · simp [registerLoop, hname, intoCronJob, hrejects, JobScheduler.add, hrefuses]
        · simp [hs.names, or_comm, eq_comm]
        · rw [cronJobs_append, hs.jobs, hlen]
          rfl
        · simp [hs.gates, List.replicate_succ']

variable (api) in
/-- The loop adds every job, or those before the first one that offends. -/
theorem registerLoop_cases {gates : List Semaphore} {before : List Job} {s : Registration}
    (hs : Added tracker gates before s) (rest : List Job) :
    (Clean api tracker gates.length before rest ∧
      ∃ s', registerLoop api tracker s rest = (.ok (), s') ∧ Added tracker gates (before ++ rest) s') ∨
    ∃ mid job after error s', rest = mid ++ job :: after ∧ Clean api tracker gates.length before mid ∧
      Offends api tracker gates.length (before ++ mid) job ∧ registerLoop api tracker s rest = (.error error, s') ∧
      s'.scheduler = ⟨cronJobs tracker gates.length (before ++ mid), false⟩ ∧
      (job.name ∈ (before ++ mid).map Job.name → error = ⟨"duplicate job name in the roster: " ++ job.name, []⟩) := by
  induction rest generalizing before s with
  | nil => exact .inl ⟨trivial, s, rfl, by simpa using hs⟩
  | cons job rest ih =>
    rcases registerLoop_cons api hs job rest with ⟨hoff, error, s', heq, hsame, hdup⟩ | ⟨hoff, s', heq, hs'⟩
    · refine .inr ⟨[], job, rest, error, s', rfl, trivial, by simpa using hoff, heq, ?_, by simpa using hdup⟩
      rw [hsame, List.append_nil, ← hs.jobs, ← hs.stopped]
    · rcases ih hs' with ⟨hclean, s'', hok, hadded⟩ |
        ⟨mid, job', after, error, s'', hrest, hclean, hbad, herr, hsame, hdup⟩
      · exact .inl ⟨⟨hoff, hclean⟩, s'', heq.trans hok, by simpa using hadded⟩
      · exact .inr ⟨job :: mid, job', after, error, s'', by rw [hrest]; rfl, ⟨hoff, hclean⟩, by simpa using hbad,
          heq.trans herr, by simpa using hsame, by simpa using hdup⟩

/-! ### The law -/

/-- Every job brings a new name and an accepted schedule, and every add succeeds. -/
structure Registrable (api : CronApi CronJob) (tracker gate : Nat) (roster : List Job) : Prop where
  names : (roster.map Job.name).Nodup
  schedules : ∀ job ∈ roster, api.rejects job.schedule = none
  adds : ∀ before job after, roster = before ++ job :: after →
    api.refuses (cronJobs tracker gate before) ⟨job, gate + before.length, tracker⟩ = none

private theorem clean_iff_of_nodup {before : List Job} (hn : (before.map Job.name).Nodup) (rest : List Job) :
    Clean api tracker gate before rest ↔ ((before ++ rest).map Job.name).Nodup ∧
      (∀ job ∈ rest, api.rejects job.schedule = none) ∧ ∀ mid job after, rest = mid ++ job :: after →
        api.refuses (cronJobs tracker gate (before ++ mid)) ⟨job, gate + (before ++ mid).length, tracker⟩ = none := by
  induction rest generalizing before with
  | nil => simp [Clean, hn]
  | cons job rest ih =>
    have hoff : ¬ Offends api tracker gate before job ↔ job.name ∉ before.map Job.name ∧
        api.rejects job.schedule = none ∧
          api.refuses (cronJobs tracker gate before) ⟨job, gate + before.length, tracker⟩ = none := by
      simp only [Offends, not_or, Bool.not_eq_true, Option.isSome_eq_false_iff, Option.isNone_iff_eq_none]
    have hsnoc : job.name ∉ before.map Job.name → ((before ++ [job]).map Job.name).Nodup := by
      intro h
      rw [List.map_append, List.nodup_append]
      refine ⟨hn, by simp, fun x hx y hy => ?_⟩
      rintro rfl
      obtain rfl : x = job.name := by simpa using hy
      exact h hx
    rw [Clean, hoff]
    constructor
    · rintro ⟨⟨hname, hrejects, hrefuses⟩, hrest⟩
      obtain ⟨hnames, hschedules, hadds⟩ := (ih (hsnoc hname)).1 hrest
      refine ⟨by simpa using hnames, ?_, fun mid job' after h => ?_⟩
      · rintro job' (_ | ⟨_, hmem⟩)
        · exact hrejects
        · exact hschedules job' hmem
      · rcases List.cons_eq_append_iff.1 h with ⟨rfl, h'⟩ | ⟨mid', rfl, h'⟩
        · obtain rfl : job' = job := (List.cons.inj h').1
          simpa using hrefuses
        · simpa using hadds mid' job' after h'
    · rintro ⟨hnames, hschedules, hadds⟩
      have hname : job.name ∉ before.map Job.name := by
        rw [List.map_append, List.nodup_append] at hnames
        exact fun h => hnames.2.2 _ h _ (List.mem_cons_self ..) rfl
      refine ⟨⟨hname, hschedules job (List.mem_cons_self ..), by simpa using hadds [] job rest rfl⟩,
        (ih (hsnoc hname)).2 ⟨by simpa using hnames, fun job' h => hschedules job' (List.mem_cons_of_mem _ h),
          fun mid job' after h => ?_⟩⟩
      simpa using hadds (job :: mid) job' after (by rw [h]; rfl)

theorem clean_iff (roster : List Job) :
    Clean api tracker gate [] roster ↔ Registrable api tracker gate roster := by
  rw [clean_iff_of_nodup (by simp)]
  constructor
  · rintro ⟨hnames, hschedules, hadds⟩
    exact ⟨hnames, hschedules, hadds⟩
  · intro h
    exact ⟨h.names, h.schedules, h.adds⟩

/-- Without a server nobody starts the engine, and an engine that is not started calls no closure. -/
theorem CronHost.silent {s s' : CronHost} (hstarted : s.scheduler.started = false)
    (hserver : ∀ server, s.server ≠ .ok server)
    (hticked : s.ticked = []) (h : CronHost.machine.Reaches s s') : s'.ticked = [] := by
  have hinv := Transition.Machine.Reaches.invariant
    (P := fun s : CronHost => s.scheduler.started = false ∧ (∀ server, s.server ≠ .ok server) ∧ s.ticked = []) h
    (fun s a s' hs h => ?_) ⟨hstarted, hserver, hticked⟩
  · exact hinv.2.2
  · cases a with
    | run start =>
      simp only [machine, step] at h
      split at h
      · next server hok => exact absurd hok (hs.2.1 server)
      · cases h
    | tick k => simp [machine, step, hs.1] at h

/-- What `register` does to an empty scheduler, and `Server::new` to the engine. -/
structure RegistrationLaw (api : CronApi CronJob) (roster : List Job) (tracker : Nat) (gates : List Semaphore)
    (result : Except AnyhowError Unit) (s : Registration) : Prop where
  ok : result = .ok () ↔ Registrable api tracker gates.length roster
  -- On `Ok` the scheduler holds one entry per job, in roster order, ...
  entries : result = .ok () → s.scheduler.jobs.map CronJob.job = roster
  -- ... each with a gate of its own, allocated by this registration with its one permit, ...
  ownGates : result = .ok () → (s.scheduler.jobs.map CronJob.gate).Nodup ∧
    ∀ cronJob ∈ s.scheduler.jobs, gates.length ≤ cronJob.gate ∧ s.gates[cronJob.gate]? = some (.new 1)
  -- ... and all with the tracker of the server.
  tracked : result = .ok () → (∀ cronJob ∈ s.scheduler.jobs, cronJob.tracker = tracker) ∧
    (CronHost.new api roster tracker gates).server = .ok ⟨s.scheduler, tracker⟩
  -- On `Err` it holds the entries of the jobs before the first one that offends; a repeated name is named.
  stopped : ∀ error, result = .error error → ∃ before job after, roster = before ++ job :: after ∧
    Registrable api tracker gates.length before ∧ Offends api tracker gates.length before job ∧
    s.scheduler.jobs = cronJobs tracker gates.length before ∧ s.scheduler.jobs.map CronJob.job = before ∧
    (job.name ∈ before.map Job.name → error = ⟨"duplicate job name in the roster: " ++ job.name, []⟩)
  -- Then `Server::new` fails, and no job of that engine ever ticks.
  silent : ∀ error, result = .error error →
    (CronHost.new api roster tracker gates).server = .error (error.context "failed to register the job roster") ∧
    ∀ host, CronHost.machine.Reaches (CronHost.new api roster tracker gates) host → host.ticked = []

private theorem added_init (tracker : Nat) (gates : List Semaphore) :
    Added tracker gates [] ⟨[], ⟨[], false⟩, gates⟩ where
  names := by simp
  jobs := rfl
  gates := by simp
  stopped := rfl

/-- The gates of the entries are those that were allocated, one each. -/
private theorem Added.own_gate {gates : List Semaphore} {roster : List Job} {s : Registration}
    (hs : Added tracker gates roster s) {cronJob : CronJob} (h : cronJob ∈ s.scheduler.jobs) :
    gates.length ≤ cronJob.gate ∧ s.gates[cronJob.gate]? = some (.new 1) := by
  rw [hs.jobs] at h
  have hmem := List.mem_map_of_mem (f := CronJob.gate) h
  rw [map_gate_cronJobs, List.mem_range'_1] at hmem
  refine ⟨hmem.1, ?_⟩
  rw [hs.gates, List.getElem?_append_right hmem.1, List.getElem?_replicate, if_pos (by omega)]

/-- For every roster, every engine and every outcome of the adds, registration obeys the law. -/
theorem registration (api : CronApi CronJob) (roster : List Job) (tracker : Nat) (gates : List Semaphore) :
    RegistrationLaw api roster tracker gates (register api roster ⟨[], false⟩ tracker gates).1
      (register api roster ⟨[], false⟩ tracker gates).2 := by
  rcases registerLoop_cases api (added_init tracker gates) roster with
    ⟨hclean, s, heq, hs⟩ | ⟨before, job, after, error, s, hroster, hclean, hbad, heq, hsame, hdup⟩
  · have hregister : register api roster ⟨[], false⟩ tracker gates = (.ok (), s) := heq
    rw [List.nil_append] at hs
    have hjobs : s.scheduler.jobs.map CronJob.job = roster := by rw [hs.jobs, map_job_cronJobs]
    have hgates : (s.scheduler.jobs.map CronJob.gate).Nodup := by
      rw [hs.jobs, map_gate_cronJobs]
      exact List.nodup_range'
    rw [hregister]
    refine ⟨iff_of_true rfl ((clean_iff roster).1 hclean), fun _ => hjobs, fun _ => ⟨hgates, fun _ => hs.own_gate⟩,
      fun _ => ⟨fun cronJob h => ?_, ?_⟩, by simp, by simp⟩
    · rw [hs.jobs] at h
      exact tracker_of_mem_cronJobs h
    · simp [CronHost.new, hregister]
  · have hregister : register api roster ⟨[], false⟩ tracker gates = (.error error, s) := heq
    rw [List.nil_append] at hbad hsame hdup
    have hnot : ¬ Registrable api tracker gates.length roster := by
      rw [← clean_iff, hroster, clean_append]
      exact fun h => h.2.1 hbad
    rw [hregister]
    refine ⟨iff_of_false (by simp) hnot, by simp, by simp, by simp, fun error' h => ?_, fun error' h => ?_⟩
    · cases h
      exact ⟨before, job, after, hroster, (clean_iff before).1 hclean, hbad, by rw [hsame],
        by rw [hsame, map_job_cronJobs], hdup⟩
    · cases h
      have hhost : CronHost.new api roster tracker gates =
          ⟨s.scheduler, .error (error.context "failed to register the job roster"), []⟩ := by
        simp [CronHost.new, hregister]
      rw [hhost]
      refine ⟨rfl, fun host hreach => CronHost.silent ?_ (by simp) rfl hreach⟩
      rw [hsame]

end StarterHub
