import StarterHub.Masking

/-!
# The outcome of the middleware stack

Whatever the service below the stack does, and whenever, one response leaves: its own if it completes in time, the
opaque 500 if it panics in time, the 503 of the timeout otherwise.  What it would have done after the deadline does
not show.
-/

namespace StarterHub

open Http Json Tower

/-- What a service does with a call: how it first completes, and when, if it ever does. -/
inductive Behaviour where
  | responds (at' : Nat) (response : Response)
  | panicsInCall (payload : Payload)
  | panics (at' : Nat) (payload : Payload)
  | never

namespace Behaviour

/-- The instant of the completion; a panic in `call` comes before the first poll. -/
def instant : Behaviour → Option Nat
  | responds at' _ | panics at' _ => some at'
  | panicsInCall _ => some 0
  | never => none

def panicked : Behaviour → Bool
  | panics _ _ | panicsInCall _ => true
  | _ => false

/-- The call, with what the service records on the way. -/
def run (records : List (Nat × Telemetry)) : Behaviour → ApiRun
  | responds at' response => ⟨records, some (at', .response response)⟩
  | panicsInCall payload => ⟨records, some (0, .panicked payload)⟩
  | panics at' payload => ⟨records, some (at', .panicked payload)⟩
  | never => ⟨records, none⟩

/-- It has not completed when the deadline is over. -/
def Late (timeout : Nat) (behaviour : Behaviour) : Prop :=
  ∀ at', behaviour.instant = some at' → timeout < at'

end Behaviour

/-- The one response that leaves the stack. -/
structure StackLaw (timeout : Nat) (behaviour : Behaviour) (run : Run Response Payload Telemetry Empty)
    (response : Response) : Prop where
  answers : Answers run response
  -- Nothing else leaves: no second response, no error, no panic.
  unique : ∀ at' exit, run.exit = some (at', exit) → exit = .response response
  responded : ∀ at' inner, behaviour = .responds at' inner → at' ≤ timeout →
    response.status = inner.status ∧ response.body = inner.body
  panicked : behaviour.panicked = true → (∀ at', behaviour.instant = some at' → at' ≤ timeout) →
    response.status = .internalServerError ∧ response.body = (errorEnvelope "internal server error").text
  timedOut : behaviour.Late timeout →
    response.status = .serviceUnavailable ∧ response.body = (errorEnvelope "request timed out").text

theorem outcome_run_late {timeout : Nat} {behaviour : Behaviour} (h : behaviour.Late timeout)
    (records : List (Nat × Telemetry)) :
    outcome timeout (behaviour.run records) = (timeout, (onError .elapsed).2) := by
  cases behaviour with
  | never => rfl
  | panicsInCall payload => exact absurd (h 0 rfl) (Nat.not_lt_zero timeout)
  | responds at' response =>
    have hlate : ¬ at' ≤ timeout := Nat.not_le.2 (h at' rfl)
    simp [outcome, Behaviour.run, Layer.guarded, hlate]
  | panics at' payload =>
    have hlate : ¬ at' ≤ timeout := Nat.not_le.2 (h at' rfl)
    simp [outcome, Behaviour.run, Layer.guarded, hlate]

theorem outcome_run_panicked {timeout : Nat} {behaviour : Behaviour} (h : behaviour.panicked = true)
    (hle : ∀ at', behaviour.instant = some at' → at' ≤ timeout) (records : List (Nat × Telemetry)) :
    (outcome timeout (behaviour.run records)).2 =
      withStatus .internalServerError (errorEnvelope "internal server error") := by
  cases behaviour with
  | responds | never => cases h
  | panicsInCall payload => exact outcome_panicked (Nat.zero_le timeout) records payload
  | panics at' payload => exact outcome_panicked (hle at' rfl) records payload

/-- For every request and every service below the stack: exactly one response leaves, as the law says; and two services
that are both late on the request it is passed on as get the same response at the same instant. -/
theorem stack_outcome (timeout : Nat) (uuid : Uuid) (request : Request) (app app' : Request → Behaviour)
    (records records' : Request → List (Nat × Telemetry)) :
    (∃ response, StackLaw timeout (app ((apply timeout uuid).onRequest request))
      ((apply timeout uuid).layer (fun req => (app req).run (records req)) request) response) ∧
    ((app ((apply timeout uuid).onRequest request)).Late timeout →
      (app' ((apply timeout uuid).onRequest request)).Late timeout →
      ((apply timeout uuid).layer (fun req => (app req).run (records req)) request).exit =
        ((apply timeout uuid).layer (fun req => (app' req).run (records' req)) request).exit) := by
  have hexit := fun (app : Request → Behaviour) (records : Request → List (Nat × Telemetry)) =>
    exit_apply timeout uuid request ((app ((apply timeout uuid).onRequest request)).run
      (records ((apply timeout uuid).onRequest request)))
  refine ⟨⟨_, ⟨_, hexit app records⟩, fun at' exit h => ?_, fun at' inner h hle => ?_, fun hp hle => ?_, fun hl => ?_⟩,
    fun hl hl' => ?_⟩
  · rw [Layer.layer, hexit app records] at h
    simp only [Option.some.injEq, Prod.mk.injEq] at h
    exact h.2.symm
  · rw [status_propagateRequestId, body_propagateRequestId, h]
    have hinner : (outcome timeout (Behaviour.run (records ((apply timeout uuid).onRequest request))
        (.responds at' inner))).2 = inner := by simp [outcome, Behaviour.run, Layer.guarded, hle]
    rw [hinner]
    exact ⟨rfl, rfl⟩
  · rw [status_propagateRequestId, body_propagateRequestId, outcome_run_panicked hp hle]
    exact ⟨rfl, rfl⟩
  · rw [status_propagateRequestId, body_propagateRequestId, outcome_run_late hl]
    exact ⟨rfl, rfl⟩
  · rw [Layer.layer, Layer.layer, hexit app records, hexit app' records', outcome_run_late hl, outcome_run_late hl']

end StarterHub
