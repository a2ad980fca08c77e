import StarterHub.JsonEnvelope

/-!
# Failures are masked

Two executions that fail at the same place, and differ only in what is confidential there, get the same response.  All
the masked failures share one body; and an `ApiError` below 500 shows its message as it is.
-/

namespace StarterHub

open Http Json Tower

/-- An execution that fails, and where: with an `ApiError`, by a panic, with an error under `timeout::handle` that is no
timeout, in the ping of `readyz`. -/
inductive Failure where
  | api (at' : Nat) (error : ApiError)
  | panic (at' : Nat) (payload : Payload)
  | unexpected (at' : Nat) (message : String)
  | ping (at' : Nat) (err : DbErr)

namespace Failure

def run : Failure → ApiRun
  | api at' error => answerAt at' error.intoResponse
  | panic at' payload => ⟨[], some (at', .panicked payload)⟩
  | unexpected at' message => ⟨[], some (at', .error (.other message))⟩
  | ping at' err => readyzRun ⟨some (at', .error err)⟩

def instant : Failure → Nat
  | api at' _ | panic at' _ | unexpected at' _ | ping at' _ => at'

/-- The status of a failure whose detail is masked. -/
def maskedStatus : Failure → Option StatusCode
  | api _ error => if error.statusCode.isServerError then some error.statusCode else none
  | panic _ _ | unexpected _ _ => some .internalServerError
  | ping _ _ => none

end Failure

/-- The two failures differ in confidential content at most. -/
inductive LowEq : Failure → Failure → Prop
  | refl (f : Failure) : LowEq f f
  | database (at' : Nat) (error error' : DbErr) : LowEq (.api at' (.database error)) (.api at' (.database error'))
  | internal (at' : Nat) (error error' : AnyhowError) :
      LowEq (.api at' (.internal error)) (.api at' (.internal error'))
  | jsonRejection (at' : Nat) {status : StatusCode} (h : status.isServerError = true) (text text' : String) :
      LowEq (.api at' (.jsonRejection ⟨status, text⟩)) (.api at' (.jsonRejection ⟨status, text'⟩))
  | pathRejection (at' : Nat) {status : StatusCode} (h : status.isServerError = true) (text text' : String) :
      LowEq (.api at' (.pathRejection ⟨status, text⟩)) (.api at' (.pathRejection ⟨status, text'⟩))
  | panic (at' : Nat) (payload payload' : Payload) : LowEq (.panic at' payload) (.panic at' payload')
  | unexpected (at' : Nat) (message message' : String) : LowEq (.unexpected at' message) (.unexpected at' message')
  | ping (at' : Nat) (err err' : DbErr) : LowEq (.ping at' err) (.ping at' err')

def errorMessage (body : String) : Option String := readObject "error" body.toList

theorem errorMessage_text (message : String) : errorMessage (errorEnvelope message).text = some message := by
  rw [errorMessage, Value.text, String.toList_ofList]
  exact readObject_render "error" message

/-! ### One failure -/

theorem intoResponse_masked {error : ApiError} (h : error.statusCode.isServerError = true) :
    error.intoResponse.2 = withStatus error.statusCode (errorEnvelope "internal server error") := by
  rw [error.intoResponse_eq, if_pos h]

private theorem intoResponse_congr {error error' : ApiError} (h : error.statusCode.isServerError = true)
    (hs : error.statusCode = error'.statusCode) : error.intoResponse.2 = error'.intoResponse.2 := by
  rw [intoResponse_masked h, intoResponse_masked (hs ▸ h), hs]

/-- Answers that are ready at the same instant and make the same response leave the stack alike. -/
private theorem outcome_congr (timeout at' : Nat) {answer answer' : Answer} (h : answer.2 = answer'.2) :
    outcome timeout (answerAt at' answer) = outcome timeout (answerAt at' answer') := by
  simp [outcome, Layer.guarded, answerAt, h]

theorem LowEq.outcome_eq {f f' : Failure} (h : LowEq f f') (timeout : Nat) :
    outcome timeout f.run = outcome timeout f'.run := by
  cases h with
  | refl => rfl
  | database at' error error' =>
    refine outcome_congr timeout at' ?_
    exact intoResponse_congr rfl rfl
  | internal at' error error' =>
    refine outcome_congr timeout at' ?_
    exact intoResponse_congr rfl rfl
  | jsonRejection at' h text text' =>
    refine outcome_congr timeout at' ?_
    exact intoResponse_congr h rfl
  | pathRejection at' h text text' =>
    refine outcome_congr timeout at' ?_
    exact intoResponse_congr h rfl
  | panic => rfl
  | unexpected => rfl
  | ping at' err err' =>
    refine outcome_congr timeout at' ?_
    rfl

/-- Within the timeout, every masked failure makes the one masked response of its status. -/
theorem outcome_masked {f : Failure} {timeout : Nat} {status : StatusCode} (hle : f.instant ≤ timeout)
    (h : f.maskedStatus = some status) :
    (outcome timeout f.run).2 = withStatus status (errorEnvelope "internal server error") := by
  cases f with
  | api at' error =>
    simp only [Failure.maskedStatus, Option.ite_none_right_eq_some, Option.some.injEq] at h
    obtain ⟨hserver, rfl⟩ := h
    exact (outcome_answerAt hle _).trans (intoResponse_masked hserver)
  | panic at' payload =>
    cases h
    exact outcome_panicked hle [] payload
  | unexpected at' message =>
    cases h
    exact outcome_error hle [] (.other message)
  | ping at' err => cases h

/-! ### The stack -/

theorem body_propagateRequestId (request : Request) (response : Response) :
    (propagateRequestId request response).body = response.body := by
  unfold propagateRequestId
  repeat' split
  all_goals rfl

/-- For every request: failures that differ in confidential content at most get one and the same response; those of a
masked status all have one body, also across the three places that mask; and an `ApiError` below 500 is answered with
exactly its message. -/
theorem failures_masked (timeout : Nat) (uuid : Uuid) (request : Request) :
    (∀ f f', LowEq f f' → ∃ response,
      Answers ((apply timeout uuid).layer (fun _ => f.run) request) response ∧
      Answers ((apply timeout uuid).layer (fun _ => f'.run) request) response) ∧
    (∃ body, ∀ (f : Failure) (status : StatusCode), f.instant ≤ timeout → f.maskedStatus = some status →
      ∃ response, Answers ((apply timeout uuid).layer (fun _ => f.run) request) response ∧
        response.status = status ∧ response.body = body) ∧
    ∀ (at' : Nat) (error : ApiError), at' ≤ timeout → error.statusCode.code < 500 →
      ∃ response, Answers ((apply timeout uuid).layer (fun _ => (Failure.api at' error).run) request) response ∧
        response.status = error.statusCode ∧ errorMessage response.body = some error.display := by
  refine ⟨fun f f' h => ?_, ⟨(errorEnvelope "internal server error").text, fun f status hle h => ?_⟩,
    fun at' error hle hlt => ?_⟩
  · refine ⟨_, ⟨_, exit_apply timeout uuid request f.run⟩, (outcome timeout f'.run).1, ?_⟩
    rw [h.outcome_eq timeout]
    exact exit_apply timeout uuid request f'.run
  · refine ⟨_, ⟨_, exit_apply timeout uuid request f.run⟩, ?_, ?_⟩
    · rw [status_propagateRequestId, outcome_masked hle h]
      rfl
    · rw [body_propagateRequestId, outcome_masked hle h]
      rfl
  · have hclient : ¬ error.statusCode.isServerError = true := by
      simp only [StatusCode.isServerError, Bool.and_eq_true, decide_eq_true_eq]
      omega
    refine ⟨_, ⟨_, exit_apply timeout uuid request (Failure.api at' error).run⟩, ?_, ?_⟩
    · rw [status_propagateRequestId, Failure.run, outcome_answerAt hle, ApiError.status_intoResponse]
    · rw [body_propagateRequestId, Failure.run, outcome_answerAt hle, error.intoResponse_eq, if_neg hclient]
      exact errorMessage_text error.display

end StarterHub
