import StarterHub.Middleware

/-!
# Request correlation end to end

One id per request: the client's first value if it is well formed and a fresh UUID otherwise.  The span, the router and
the response all carry it, whatever happens below the stack, as every response that is synthesized on the way out
passes through `propagate`.
-/

namespace StarterHub

open Http Tower

def WellFormedId (value : HeaderValue) : Prop :=
  1 ≤ value.bytes.length ∧ value.bytes.length ≤ 128 ∧ ∀ b ∈ value.bytes, 33 ≤ b.toNat ∧ b.toNat ≤ 126

instance (value : HeaderValue) : Decidable (WellFormedId value) :=
  decidable_of_iff (1 ≤ value.bytes.length ∧ value.bytes.length ≤ 128 ∧ value.bytes.all isAsciiGraphic = true)
    (by simp [WellFormedId, isAsciiGraphic])

/-- The id of a request: the client's first value, or else the generated one. -/
def correlationId (uuid : Uuid) (request : Request) : HeaderValue :=
  match request.headers.get xRequestId with
  | some value => if WellFormedId value then value else uuid.headerValue
  | none => uuid.headerValue

/-- The request and its response are correlated by `id`. -/
structure Correlated (timeout : Nat) (uuid : Uuid) (app : Request → ApiRun) (request : Request) (id : HeaderValue) :
    Prop where
  -- The response leaves with exactly one id.
  answered : ∃ at' response, ((apply timeout uuid).layer app request).exit = some (at', .response response) ∧
    response.headers.getAll xRequestId = [id]
  -- The span of the request records it.
  traced : ∃ span, ((apply timeout uuid).layer app request).records.head? = some (0, .span span) ∧
    id.toStr = some span.requestId
  -- `make_span` never falls back to `unknown`.
  known : (((identified uuid request).headers.get xRequestId).bind HeaderValue.toStr).isSome
  -- It is the first id the handler sees.
  seen : ((apply timeout uuid).onRequest request).headers.get xRequestId = some id

/-! ### The test of `sanitize` -/

theorem wellFormedId_headerValue (uuid : Uuid) : WellFormedId uuid.headerValue := by
  refine ⟨?_, ?_, fun b hb => ?_⟩
  · show 1 ≤ uuid.hyphenated.length
    rw [uuid.length_hyphenated]
    decide
  · show uuid.hyphenated.length ≤ 128
    rw [uuid.length_hyphenated]
    decide
  · have hgraphic := uuid.isAsciiGraphic_hyphenated b hb
    simpa [isAsciiGraphic] using hgraphic

theorem WellFormedId.toStr {value : HeaderValue} (h : WellFormedId value) :
    value.toStr = some (HeaderValue.ofBytes value.bytes) := by
  have hvisible : value.bytes.all isVisible = true := by
    refine List.all_eq_true.2 fun b hb => isVisible_of_isAsciiGraphic ?_
    simpa [isAsciiGraphic] using h.2.2 b hb
  rw [HeaderValue.toStr, if_pos hvisible]

theorem acceptable_iff (value : HeaderValue) : acceptable value = true ↔ WellFormedId value := by
  have hbytes : ∀ {text : String}, value.toStr = some text → (acceptable value = true ↔ WellFormedId value) := by
    intro text htext
    have hutf8 := HeaderValue.toUTF8_of_toStr htext
    have hsize : text.utf8ByteSize = value.bytes.length := by
      rw [← hutf8, Array.length_toList, ← String.size_toByteArray, String.toUTF8_eq_toByteArray]
      rfl
    have hempty : text.isEmpty = decide (value.bytes.length = 0) := by
      rw [← hsize, Bool.eq_iff_iff, String.isEmpty_iff, decide_eq_true_eq, String.utf8ByteSize_eq_zero_iff]
    simp only [acceptable, htext, hutf8, hsize, hempty, maxLength, isAsciiGraphic, WellFormedId, Bool.and_eq_true,
      Bool.not_eq_true', decide_eq_true_eq, decide_eq_false_iff_not, List.all_eq_true, and_assoc]
    exact and_congr (by omega) Iff.rfl
  cases htext : value.toStr with
  | some text => exact hbytes htext
  | none =>
    refine ⟨fun h => ?_, fun h => ?_⟩
    · rw [acceptable, htext] at h
      cases h
    · rw [h.toStr] at htext
      cases htext

/-! ### The id through the stack -/

theorem get_identified (uuid : Uuid) (request : Request) :
    (identified uuid request).headers.get xRequestId = some (correlationId uuid request) := by
  cases hget : request.headers.get xRequestId with
  | none =>
    have hs : sanitize request = request := by simp [sanitize, hget]
    simp [identified, hs, setRequestId, hget, correlationId]
  | some value =>
    by_cases hw : WellFormedId value
    · have hs : sanitize request = request := by simp [sanitize, hget, (acceptable_iff value).2 hw]
      simp [identified, hs, setRequestId, hget, correlationId, hw]
    · have ha : acceptable value = false := by
        rw [← Bool.not_eq_true, acceptable_iff]
        exact hw
      have hs : sanitize request = { request with headers := request.headers.remove xRequestId } := by
        simp [sanitize, hget, ha]
      simp [identified, hs, setRequestId, hget, correlationId, hw]

theorem wellFormedId_correlationId (uuid : Uuid) (request : Request) : WellFormedId (correlationId uuid request) := by
  unfold correlationId
  split
  · split
    · assumption
    · exact wellFormedId_headerValue uuid
  · exact wellFormedId_headerValue uuid

/-- The responses the stack makes by itself carry no id. -/
theorem get_withStatus (status : StatusCode) (value : Json.Value) :
    (withStatus status value).headers.get xRequestId = none := by
  show (HeaderMap.empty.insert "content-type" applicationJson).get xRequestId = none
  rw [HeaderMap.get_insert_ne (by decide)]
  rfl

private theorem get_onError (error : BoxError) : (onError error).2.headers.get xRequestId = none := by
  cases error <;> exact get_withStatus ..

/-- What leaves the guard carries an id only if it is the router's own response. -/
theorem get_outcome (timeout : Nat) {run : ApiRun}
    (h : ∀ at' response, run.exit = some (at', .response response) → response.headers.get xRequestId = none) :
    (outcome timeout run).2.headers.get xRequestId = none := by
  unfold outcome Layer.guarded
  split
  · next at' e he =>
    split
    · cases e with
      | response r => exact h at' r he
      | error e => exact get_onError e
      | panicked payload => exact get_withStatus ..
    · exact get_onError .elapsed
  · exact get_onError .elapsed

/-- Whatever the service below the stack does, as long as its own response sets no id: the request is correlated by
the client's first id, if that is well formed, and by a fresh UUID otherwise. -/
theorem request_correlation (timeout : Nat) (uuid : Uuid) (app : Request → ApiRun) (request : Request)
    (happ : ∀ at' response, (app ((apply timeout uuid).onRequest request)).exit = some (at', .response response) →
      response.headers.get xRequestId = none) :
    Correlated timeout uuid app request (correlationId uuid request) := by
  have hid := get_identified uuid request
  have hstr := (wellFormedId_correlationId uuid request).toStr
  have hnone := get_outcome timeout happ
  refine ⟨⟨_, _, exit_apply timeout uuid request _, ?_⟩, ⟨_, records_apply timeout uuid request _, ?_⟩, ?_, hid⟩
  · simp [propagateRequestId, hid, hnone]
  · simp [makeSpan, hid, hstr]
  · simp [hid, hstr]

/-- A client that sends two ids, to a handler that panics. -/
def twoIds : Request :=
  { method := .get, path := "/livez", uri := "/livez", bodyLimit := none,
    headers := ⟨[(xRequestId, fromStatic "trace-1" (by decide)), (xRequestId, fromStatic "a b" (by decide))]⟩ }

theorem request_correlation_two_ids : correlationId Uuid.nil twoIds = fromStatic "trace-1" (by decide) ∧
    Correlated (fromSecs 30) Uuid.nil (fun _ => (HandlerEnd.panicked (fromSecs 1) .other).run) twoIds
      (correlationId Uuid.nil twoIds) :=
  ⟨by decide, request_correlation (fromSecs 30) Uuid.nil _ twoIds fun at' response h => by cases h⟩

end StarterHub
