import StarterHub.Router

/-!
# One envelope for every failure

Every response of the API is JSON, and every response outside 2xx is an object with the single key `error`: with three
exceptions.  A value that fails to serialize is answered by `axum::Json` itself, in plain text, a method that a route of
`SwaggerUi` does not have is answered by axum itself, with an empty body, as these routes are merged after the fallback
was set, and a CONNECT that succeeds is answered without a body.
-/

namespace StarterHub

open Http Json Tower

def IsJson (response : Response) : Prop :=
  response.headers.get "content-type" = some applicationJson ∧ ∃ value : Value, response.body = value.text

/-- The response is JSON, and outside 2xx it is an object with the single key `error` holding a string. -/
def Envelope (response : Response) : Prop :=
  IsJson response ∧
    (response.status.isSuccess = false → ∃ message, response.body = (errorEnvelope message).text)

/-- What axum sends: the answer to a HEAD loses its body, and so does the 2xx answer to a CONNECT. -/
def onWire (request : Request) (response : Response) : Response :=
  if request.method = .head ∨ (request.method = .connect ∧ response.status.isSuccess = true) then
    { response with body := "" }
  else response

def Answers (run : Run Response Payload Telemetry Empty) (response : Response) : Prop :=
  ∃ at', run.exit = some (at', .response response)

/-- Within the timeout, the handler returns a value that fails to serialize. -/
def HandlerEnd.FailsToSerialize (timeout : Nat) : HandlerEnd → Prop
  | .returned at' (.ok (.error _)) => at' ≤ timeout
  | _ => False

/-- Within the timeout, the handler returns with a 2xx status. -/
def HandlerEnd.Succeeds (timeout : Nat) : HandlerEnd → Prop
  | .returned at' (.ok (.ok _)) => at' ≤ timeout
  | .returned at' (.error error) => at' ≤ timeout ∧ error.statusCode.isSuccess = true
  | _ => False

/-! ### The responses -/

private theorem envelope_json {response : Response} {value : Value}
    (htype : response.headers.get "content-type" = some applicationJson) (hbody : response.body = value.text)
    (h : response.status.isSuccess = true) : Envelope response :=
  ⟨⟨htype, value, hbody⟩, fun hfail => by rw [h] at hfail; cases hfail⟩

theorem contentType_respond (status : StatusCode) (contentType : HeaderValue) (body : String) :
    (respond status contentType body).headers.get "content-type" = some contentType :=
  HeaderMap.get_insert_self

theorem envelope_ok (value : Value) : Envelope (jsonIntoResponse (.ok value)) :=
  envelope_json (contentType_respond ..) rfl rfl

theorem envelope_statusOk : Envelope (withStatus .ok statusOk) :=
  envelope_json (contentType_respond ..) rfl rfl

theorem envelope_error (status : StatusCode) (message : String) :
    Envelope (withStatus status (errorEnvelope message)) :=
  ⟨⟨contentType_respond .., errorEnvelope message, rfl⟩, fun _ => ⟨message, rfl⟩⟩

/-- The text of a `serde_json` error is not sent as JSON. -/
theorem not_envelope_unserializable (error : String) : ¬ Envelope (jsonIntoResponse (.error error)) := by
  rintro ⟨⟨htype, -⟩, -⟩
  have hplain : (jsonIntoResponse (.error error)).headers.get "content-type" = some textPlain :=
    contentType_respond ..
  rw [hplain] at htype
  revert htype
  decide

/-- Nor is an empty body. -/
theorem not_envelope_empty (status : StatusCode) (headers : HeaderMap) : ¬ Envelope ⟨status, headers, ""⟩ := by
  rintro ⟨⟨-, value, hbody⟩, -⟩
  exact value.text_ne_empty hbody.symm

theorem envelope_intoResponse (error : ApiError) : Envelope error.intoResponse.2 := by
  rw [error.intoResponse_eq]
  exact envelope_error ..

theorem envelope_onError (error : BoxError) : Envelope (onError error).2 := by
  cases error <;> exact envelope_error ..

theorem envelope_handlePanic (panic : Payload) : Envelope (handlePanic panic).2 := envelope_error ..

theorem envelope_propagateRequestId (request : Request) (response : Response) :
    Envelope (propagateRequestId request response) ↔ Envelope response := by
  unfold propagateRequestId
  split
  · split
    · rfl
    · unfold Envelope IsJson
      rw [HeaderMap.get_insert_ne (by decide)]
  · rfl

theorem status_propagateRequestId (request : Request) (response : Response) :
    (propagateRequestId request response).status = response.status := by
  unfold propagateRequestId
  repeat' split
  all_goals rfl

/-- What is sent is in the envelope iff the response is and is sent as it is. -/
private theorem envelope_onWire {request : Request} (hh : request.method ≠ .head) (response : Response) :
    Envelope (onWire request response) ↔
      Envelope response ∧ ¬ (request.method = .connect ∧ response.status.isSuccess = true) := by
  unfold onWire
  by_cases hc : request.method = .connect ∧ response.status.isSuccess = true
  · rw [if_pos (.inr hc)]
    exact iff_of_false (not_envelope_empty _ _) fun h => h.2 hc
  · rw [if_neg (not_or.2 ⟨hh, hc⟩)]
    exact (and_iff_left hc).symm

/-! ### The stack -/

theorem outcome_late {timeout at' : Nat} (h : ¬ at' ≤ timeout) (records : List (Nat × Telemetry))
    (e : Exit Response Payload BoxError) :
    (outcome timeout ⟨records, some (at', e)⟩).2 = (onError .elapsed).2 := by simp [outcome, Layer.guarded, h]

theorem outcome_answerAt {timeout at' : Nat} (h : at' ≤ timeout) (answer : Answer) :
    (outcome timeout (answerAt at' answer)).2 = answer.2 := by simp [outcome, Layer.guarded, answerAt, h]

theorem outcome_panicked {timeout at' : Nat} (h : at' ≤ timeout) (records : List (Nat × Telemetry))
    (payload : Payload) :
    (outcome timeout ⟨records, some (at', .panicked payload)⟩).2 = (handlePanic payload).2 := by
  simp [outcome, Layer.guarded, h]

theorem outcome_error {timeout at' : Nat} (h : at' ≤ timeout) (records : List (Nat × Telemetry)) (error : BoxError) :
    (outcome timeout ⟨records, some (at', .error error)⟩).2 = (onError error).2 := by
  simp [outcome, Layer.guarded, h]

theorem envelope_outcome_answerAt (timeout at' : Nat) {answer : Answer} (h : Envelope answer.2) :
    Envelope (outcome timeout (answerAt at' answer)).2 := by
  by_cases hle : at' ≤ timeout
  · rw [outcome_answerAt hle]
    exact h
  · rw [answerAt, outcome_late hle]
    exact envelope_onError _

private theorem envelope_handler (timeout : Nat) (ends : HandlerEnd) :
    Envelope (outcome timeout ends.run).2 ↔ ¬ ends.FailsToSerialize timeout := by
  cases ends with
  | pending => exact iff_of_true (envelope_onError .elapsed) id
  | panicked at' payload =>
    refine iff_of_true ?_ id
    by_cases hle : at' ≤ timeout
    · rw [HandlerEnd.run, outcome_panicked hle]
      exact envelope_handlePanic payload
    · rw [HandlerEnd.run, outcome_late hle]
      exact envelope_onError _
  | returned at' result =>
    match result with
    | .error error => exact iff_of_true (envelope_outcome_answerAt _ _ (envelope_intoResponse error)) id
    | .ok (.ok value) => exact iff_of_true (envelope_outcome_answerAt _ _ (envelope_ok value)) id
    | .ok (.error error) =>
      by_cases hle : at' ≤ timeout
      · refine iff_of_false ?_ (not_not_intro hle)
        rw [HandlerEnd.run, outcome_answerAt hle]
        exact not_envelope_unserializable error
      · refine iff_of_true ?_ hle
        rw [HandlerEnd.run, answerAt, outcome_late hle]
        exact envelope_onError _

private theorem isSuccess_answerAt (timeout at' : Nat) (answer : Answer) :
    (outcome timeout (answerAt at' answer)).2.status.isSuccess = true ↔
      at' ≤ timeout ∧ answer.2.status.isSuccess = true := by
  by_cases hle : at' ≤ timeout
  · rw [outcome_answerAt hle]
    exact (and_iff_right hle).symm
  · rw [answerAt, outcome_late hle]
    exact iff_of_false (by decide) fun h => hle h.1

private theorem isSuccess_handler (timeout : Nat) (ends : HandlerEnd) :
    (outcome timeout ends.run).2.status.isSuccess = true ↔ ends.Succeeds timeout := by
  cases ends with
  | pending => exact iff_of_false (show ¬ (onError .elapsed).2.status.isSuccess = true by decide) id
  | panicked at' payload =>
    refine iff_of_false ?_ id
    by_cases hle : at' ≤ timeout
    · rw [HandlerEnd.run, outcome_panicked hle]
      exact (by decide : ¬ StatusCode.isSuccess .internalServerError = true)
    · rw [HandlerEnd.run, outcome_late hle]
      decide
  | returned at' result =>
    match result with
    | .error error => exact (isSuccess_answerAt ..).trans (by rw [ApiError.status_intoResponse]; rfl)
    | .ok (.ok value) => exact (isSuccess_answerAt ..).trans (and_iff_left (by rfl))
    | .ok (.error error) =>
      refine (isSuccess_answerAt ..).trans (iff_of_false (fun h => ?_) id)
      exact absurd h.2 (by decide : ¬ StatusCode.isSuccess .internalServerError = true)

private theorem envelope_router (timeout : Nat) {swaggerUi : SwaggerUi} {state : AppState} {docs : Bool}
    {name : String} {request : Request} (hh : request.method ≠ .head)
    (hget : onDocs swaggerUi docs name request.path = true → request.method ≠ .get) :
    Envelope (outcome timeout ((router swaggerUi state docs name).call request)).2 ↔
      onDocs swaggerUi docs name request.path = false := by
  by_cases hdocs : onDocs swaggerUi docs name request.path = true
  · refine iff_of_false ?_ (by simp [hdocs])
    rw [call_docs hdocs (hget hdocs) hh, builtin, outcome_answerAt (Nat.zero_le _)]
    exact not_envelope_empty _ _
  · rw [Bool.not_eq_true] at hdocs
    refine iff_of_true ?_ hdocs
    by_cases hpath : request.path ∈ ["/healthz", "/livez", "/readyz"]
    · rcases call_probe swaggerUi state docs name hpath hh with ⟨-, h⟩ | ⟨-, h⟩ | h <;> rw [h]
      · exact envelope_outcome_answerAt _ _ envelope_statusOk
      · unfold readyzRun
        split
        · next at' result _ =>
          refine envelope_outcome_answerAt _ _ ?_
          cases result with
          | ok => exact envelope_statusOk
          | error => exact envelope_error ..
        · exact envelope_onError .elapsed
      · exact envelope_outcome_answerAt _ _ (envelope_intoResponse _)
    · rw [call_other hdocs hpath]
      exact envelope_outcome_answerAt _ _ (envelope_intoResponse _)

/-- The router has nothing for a CONNECT. -/
private theorem not_isSuccess_connect (timeout : Nat) (swaggerUi : SwaggerUi) (state : AppState) (docs : Bool)
    (name : String) {request : Request} (hc : request.method = .connect) :
    ¬ (outcome timeout ((router swaggerUi state docs name).call request)).2.status.isSuccess = true := by
  have hh : request.method ≠ .head := by rw [hc]; decide
  have hget : request.method ≠ .get := by rw [hc]; decide
  have hanswer : ∃ answer : Answer, (router swaggerUi state docs name).call request = answerAt 0 answer ∧
      ¬ answer.2.status.isSuccess = true := by
    by_cases hdocs : onDocs swaggerUi docs name request.path = true
    · exact ⟨_, call_docs hdocs hget hh, by decide⟩
    · by_cases hpath : request.path ∈ ["/healthz", "/livez", "/readyz"]
      · rcases call_probe swaggerUi state docs name hpath hh with ⟨h, -⟩ | ⟨h, -⟩ | h
        · exact absurd h hget
        · exact absurd h hget
        · exact ⟨_, h, by decide⟩
      · exact ⟨_, call_other (by simpa using hdocs) hpath, by decide⟩
  obtain ⟨answer, hcall, hstatus⟩ := hanswer
  rw [hcall, isSuccess_answerAt]
  exact fun h => hstatus h.2

/-- For every request other than HEAD: a handler behind the stack answers in the envelope iff it does not return, in
time, a value that fails to serialize, or anything with a 2xx status to a CONNECT; and the router (where `SwaggerUi`
does not answer a GET itself) does so iff the request does not meet a route of `SwaggerUi`. -/
theorem json_envelope (timeout : Nat) (uuid : Uuid) (request : Request) (hh : request.method ≠ .head) :
    (∀ handler : Request → HandlerEnd, ∃ response,
      Answers ((apply timeout uuid).layer (fun req => (handler req).run) request) response ∧
      (Envelope (onWire request response) ↔
        ¬ (handler ((apply timeout uuid).onRequest request)).FailsToSerialize timeout ∧
        ¬ (request.method = .connect ∧ (handler ((apply timeout uuid).onRequest request)).Succeeds timeout))) ∧
    ∀ (swaggerUi : SwaggerUi) (state : AppState) (docs : Bool) (name : String),
      (onDocs swaggerUi docs name request.path = true → request.method ≠ .get) →
      ∃ response, Answers ((apply timeout uuid).layer (router swaggerUi state docs name).call request) response ∧
        (Envelope (onWire request response) ↔ onDocs swaggerUi docs name request.path = false) := by
  refine ⟨fun handler => ⟨_, ⟨_, exit_apply timeout uuid request _⟩, ?_⟩,
    fun swaggerUi state docs name hget => ⟨_, ⟨_, exit_apply timeout uuid request _⟩, ?_⟩⟩
  · rw [envelope_onWire hh, envelope_propagateRequestId, status_propagateRequestId, isSuccess_handler]
    exact and_congr_left' (envelope_handler timeout _)
  · rw [envelope_onWire hh, envelope_propagateRequestId, status_propagateRequestId]
    -- the router sees the method and the path of the request itself
    obtain ⟨headers, hid⟩ := identified_eq uuid request
    rw [onRequest_apply, hid]
    refine (and_iff_left fun h => ?_).trans (envelope_router timeout hh hget)
    exact not_isSuccess_connect timeout swaggerUi state docs name (by exact h.1) h.2

def postLivez : Request :=
  { method := .post, path := "/livez", uri := "/livez", headers := .empty, bodyLimit := none }

theorem json_envelope_post_livez : ∃ response,
    Answers ((apply (fromSecs 30) .nil).layer (router (fun _ => []) ⟨none⟩ true "app").call postLivez) response ∧
      (Envelope (onWire postLivez response) ↔ onDocs (fun _ => []) true "app" postLivez.path = false) :=
  (json_envelope (fromSecs 30) .nil postLivez (by decide)).2 _ _ _ _ (by decide)

/-- A handler whose value has a key that is not a string. -/
theorem json_envelope_fails : ¬ ∀ (timeout : Nat) (uuid : Uuid) (request : Request) (handler : Request → HandlerEnd)
    (response : Response), request.method ≠ .head →
    Answers ((apply timeout uuid).layer (fun req => (handler req).run) request) response →
    Envelope (onWire request response) := by
  intro h
  have henvelope := h (fromSecs 30) .nil postLivez (fun _ => .returned 0 (.ok (.error "key must be a string"))) _
    (by decide) ⟨_, exit_apply (fromSecs 30) .nil postLivez _⟩
  rw [envelope_onWire (by decide), envelope_propagateRequestId, HandlerEnd.run, outcome_answerAt (Nat.zero_le _)]
    at henvelope
  exact not_envelope_unserializable _ henvelope.1

end StarterHub
