/-!
# Services and layers

A service turns a request into a run: what it records while it works, and when and how it ends, if it does; instants
count from the call.  A layer changes the request on the way in and the run on the way out, knowing the request it
was given; layers compose, and what reaches the innermost service is the composed change of the request.
-/

namespace Tower

inductive Exit (ρ π ε : Type) where
  | response (r : ρ)
  | error (e : ε)
  | panicked (payload : π)

/-- A call from the outside: its records with their instants, and its end with its instant. -/
structure Run (ρ π τ ε : Type) where
  records : List (Nat × τ)
  exit : Option (Nat × Exit ρ π ε)

/-- A service, by the run of each call. -/
abbrev Service (ι ρ π τ ε : Type) : Type := ι → Run ρ π τ ε

/-- What a layer does on the way in and on the way out. -/
structure Layer (ι ρ π τ ε ε' : Type) where
  onRequest : ι → ι
  onRun : ι → Run ρ π τ ε → Run ρ π τ ε'

namespace Layer

variable {ι ρ π τ ε ε' ε'' : Type}

def layer (l : Layer ι ρ π τ ε ε') (inner : Service ι ρ π τ ε) : Service ι ρ π τ ε' :=
  fun req => l.onRun req (inner (l.onRequest req))

/-- `ServiceBuilder`: the layer `outer` around the layer `inner`. -/
def stack (outer : Layer ι ρ π τ ε' ε'') (inner : Layer ι ρ π τ ε ε') : Layer ι ρ π τ ε ε'' where
  onRequest := fun req => inner.onRequest (outer.onRequest req)
  onRun := fun req run => outer.onRun req (inner.onRun (outer.onRequest req) run)

def mapRequest (f : ι → ι) : Layer ι ρ π τ ε ε := ⟨f, fun _ run => run⟩

def mapResponse (f : ι → ρ → ρ) : Layer ι ρ π τ ε ε where
  onRequest := id
  onRun := fun req run => { run with
    exit := run.exit.map fun (at', e) => (at', match e with
      | .response r => .response (f req r)
      | .error e => .error e
      | .panicked payload => .panicked payload) }

theorem exit_mapResponse {f : ι → ρ → ρ} {req : ι} {run : Run ρ π τ ε} {at' : Nat} {r : ρ}
    (h : run.exit = some (at', .response r)) :
    ((mapResponse f).onRun req run).exit = some (at', .response (f req r)) := by
  simp [mapResponse, h]

/-- A layer that records something about the request when it arrives. -/
def onArrival (f : ι → τ) : Layer ι ρ π τ ε ε := ⟨id, fun req run => { run with records := (0, f req) :: run.records }⟩

/-- `tower::timeout`: the call is dropped at `limit` unless it has ended by then.  A call that ends at the very instant
of the deadline is looked at first. -/
def timeout (limit : Nat) (elapsed : ε) : Layer ι ρ π τ ε ε where
  onRequest := id
  onRun := fun _ run =>
    let dropped := ⟨run.records.filter fun r => decide (r.1 ≤ limit), some (limit, .error elapsed)⟩
    match run.exit with
    | some (at', _) => if at' ≤ limit then run else dropped
    | none => dropped

/-- `CatchPanic`: a panic becomes the response the handler makes of its payload. -/
def catchPanic (handler : π → List τ × ρ) : Layer ι ρ π τ ε ε where
  onRequest := id
  onRun := fun _ run =>
    match run.exit with
    | some (at', .panicked payload) =>
      ⟨run.records ++ (handler payload).1.map fun r => (at', r), some (at', .response (handler payload).2)⟩
    | _ => run

/-- `HandleError`: an error becomes the response the handler makes of it. -/
def handleError (handler : ε → List τ × ρ) : Layer ι ρ π τ ε Empty where
  onRequest := id
  onRun := fun _ run =>
    match run.exit with
    | some (at', .error e) =>
      ⟨run.records ++ (handler e).1.map fun r => (at', r), some (at', .response (handler e).2)⟩
    | some (at', .response r) => ⟨run.records, some (at', .response r)⟩
    | some (at', .panicked payload) => ⟨run.records, some (at', .panicked payload)⟩
    | none => ⟨run.records, none⟩

/-! ### A guarded service -/

/-- What leaves a service under `handleError`, `timeout` and `catchPanic`, and when. -/
def guarded (limit : Nat) (elapsed : ε) (onError : ε → List τ × ρ) (onPanic : π → List τ × ρ) (run : Run ρ π τ ε) :
    Nat × ρ :=
  match run.exit with
  | some (at', e) =>
    if at' ≤ limit then
      (at', match e with
        | .response r => r
        | .error e => (onError e).2
        | .panicked payload => (onPanic payload).2)
    else (limit, (onError elapsed).2)
  | none => (limit, (onError elapsed).2)

/-- The three layers together always answer, and with a response. -/
theorem exit_guarded (limit : Nat) (elapsed : ε) (onError : ε → List τ × ρ) (onPanic : π → List τ × ρ) (req : ι)
    (run : Run ρ π τ ε) :
    (((handleError onError).stack ((timeout limit elapsed).stack (catchPanic onPanic))).onRun req run).exit =
      some ((guarded limit elapsed onError onPanic run).1,
        .response (guarded limit elapsed onError onPanic run).2) := by
  obtain ⟨records, exit⟩ := run
  rcases exit with _ | ⟨at', e⟩
  · rfl
  · by_cases h : at' ≤ limit
    · cases e <;> simp [handleError, timeout, catchPanic, guarded, h, stack]
    · cases e <;> simp [handleError, timeout, catchPanic, guarded, h, stack]

end Layer

end Tower
