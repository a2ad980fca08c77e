import StarterHub.ApiError

/-!
# The middleware stack (`api/src/middleware`)

`apply` assembles the layers top to bottom, as `ServiceBuilder` does.  Its specification comes in three lemmas: the
request the router sees, the span that is opened, and the response that leaves.
-/

namespace StarterHub

open Http Json Tower

/-! ### Request ids -/

def xRequestId : String := "x-request-id"

def maxLength : Nat := 128

/-- A UUID, by its sixteen bytes. -/
structure Uuid where
  bytes : List UInt8
  length_eq : bytes.length = 16

def Uuid.nil : Uuid := ⟨List.replicate 16 0, by decide⟩

def hexByte (b : UInt8) : List UInt8 :=
  [UInt8.ofNat (Ascii.hexLower (b.toNat / 16)).toNat, UInt8.ofNat (Ascii.hexLower (b.toNat % 16)).toNat]

def Uuid.hyphenated (uuid : Uuid) : List UInt8 :=
  let hex (start n : Nat) : List UInt8 := ((uuid.bytes.drop start).take n).flatMap hexByte
  hex 0 4 ++ 45 :: (hex 4 2 ++ 45 :: (hex 6 2 ++ 45 :: (hex 8 2 ++ 45 :: hex 10 6)))

private theorem isAsciiGraphic_hexDigit {n : Nat} (h : n < 16) :
    isAsciiGraphic (UInt8.ofNat (Ascii.hexLower n).toNat) = true := by
  revert n
  decide

private theorem isAsciiGraphic_hexByte (b : UInt8) : ∀ c ∈ hexByte b, isAsciiGraphic c = true := by
  have hlt := b.toNat_lt
  intro c hc
  simp only [hexByte, List.mem_cons, List.not_mem_nil, or_false] at hc
  rcases hc with rfl | rfl
  · exact isAsciiGraphic_hexDigit (by omega)
  · exact isAsciiGraphic_hexDigit (by omega)

theorem Uuid.isAsciiGraphic_hyphenated (uuid : Uuid) : ∀ c ∈ uuid.hyphenated, isAsciiGraphic c = true := by
  have hhex : ∀ bs : List UInt8, ∀ c ∈ bs.flatMap hexByte, isAsciiGraphic c = true := by
    intro bs c hc
    obtain ⟨b, -, hc⟩ := List.mem_flatMap.1 hc
    exact isAsciiGraphic_hexByte b c hc
  have hhyphen : isAsciiGraphic 45 = true := by decide
  intro c hc
  simp only [hyphenated, List.mem_append, List.mem_cons] at hc
  rcases hc with hc | rfl | hc | rfl | hc | rfl | hc | rfl | hc
  all_goals first | exact hhex _ c hc | exact hhyphen

theorem Uuid.length_hyphenated (uuid : Uuid) : uuid.hyphenated.length = 36 := by
  have hlen : ∀ bs : List UInt8, (bs.flatMap hexByte).length = 2 * bs.length := by
    intro bs
    induction bs with
    | nil => rfl
    | cons b bs ih =>
      rw [List.flatMap_cons, List.length_append, ih, List.length_cons]
      show 2 + 2 * bs.length = 2 * (bs.length + 1)
      omega
  simp only [hyphenated, List.length_append, List.length_cons, hlen, List.length_take, List.length_drop,
    uuid.length_eq]
  decide

def Uuid.headerValue (uuid : Uuid) : HeaderValue :=
  ⟨uuid.hyphenated, List.all_eq_true.2 fun c hc =>
    isLegal_of_isVisible (isVisible_of_isAsciiGraphic (uuid.isAsciiGraphic_hyphenated c hc))⟩

/-- The test of `sanitize` on a client's id. -/
def acceptable (value : HeaderValue) : Bool :=
  match value.toStr with
  | some id => !id.isEmpty && decide (id.utf8ByteSize ≤ maxLength) && id.toUTF8.data.toList.all isAsciiGraphic
  | none => false

/-- `request_id::sanitize`, on the way in. -/
def sanitize (request : Request) : Request :=
  match request.headers.get xRequestId with
  | some value =>
    if acceptable value then request else { request with headers := request.headers.remove xRequestId }
  | none => request

/-- `SetRequestId`: a fresh id for a request that has none. -/
def setRequestId (uuid : Uuid) (request : Request) : Request :=
  match request.headers.get xRequestId with
  | some _ => request
  | none => { request with headers := request.headers.insert xRequestId uuid.headerValue }

/-- `PropagateRequestId`: the id of the request for a response that has none. -/
def propagateRequestId (request : Request) (response : Response) : Response :=
  match request.headers.get xRequestId with
  | some id =>
    match response.headers.get xRequestId with
    | some _ => response
    | none => { response with headers := response.headers.insert xRequestId id }
  | none => response

/-! ### The other layers -/

def makeSpan (request : Request) : Span :=
  { name := "http_request", method := request.method, uri := request.uri,
    requestId := ((request.headers.get xRequestId).bind HeaderValue.toStr).getD "unknown" }

def maxBytes : Nat := 2 * 1024 * 1024

/-- `body_limit::layer`. -/
def declareBodyLimit (request : Request) : Request := { request with bodyLimit := some maxBytes }

def onError : BoxError → Answer
  | .elapsed =>
    ([.event ⟨.warn, "request timed out", []⟩], withStatus .serviceUnavailable (errorEnvelope "request timed out"))
  | .other message =>
    ([.event ⟨.error, "internal server error", [("error", .text message)]⟩],
      withStatus .internalServerError (errorEnvelope "internal server error"))

def panicDetail : Payload → String
  | .string s => s
  | .str s => s
  | .other => "opaque panic payload"

def handlePanic (panic : Payload) : Answer :=
  ([.event ⟨.error, "handler panicked", [("panic", .text (panicDetail panic))]⟩],
    withStatus .internalServerError (errorEnvelope "internal server error"))

/-! ### The stack -/

/-- `timeout::handle`, `timeout::layer` and `catch_panic::layer`. -/
def guard (timeout : Nat) : Layer Request Response Payload Telemetry BoxError Empty :=
  (Layer.handleError onError).stack ((Layer.timeout timeout .elapsed).stack (Layer.catchPanic handlePanic))

/-- `middleware::apply`; `uuid` is what the generator yields for the request. -/
def apply (timeout : Nat) (uuid : Uuid) : Layer Request Response Payload Telemetry BoxError Empty :=
  (Layer.mapRequest sanitize).stack
    ((Layer.mapRequest (setRequestId uuid)).stack
      ((Layer.onArrival fun request => .span (makeSpan request)).stack
        ((Layer.mapResponse propagateRequestId).stack
          ((Layer.mapRequest declareBodyLimit).stack (guard timeout)))))

/-- The request below `set`, with its id. -/
def identified (uuid : Uuid) (request : Request) : Request := setRequestId uuid (sanitize request)

/-- What `guard` makes of a call, and when. -/
def outcome (timeout : Nat) (run : ApiRun) : Nat × Response := Layer.guarded timeout .elapsed onError handlePanic run

theorem onRequest_apply (timeout : Nat) (uuid : Uuid) (request : Request) :
    (apply timeout uuid).onRequest request = declareBodyLimit (identified uuid request) := rfl

theorem identified_eq (uuid : Uuid) (request : Request) :
    ∃ headers, identified uuid request = { request with headers } := by
  unfold identified setRequestId sanitize
  repeat' split
  all_goals exact ⟨_, rfl⟩

theorem records_apply (timeout : Nat) (uuid : Uuid) (request : Request) (run : ApiRun) :
    ((apply timeout uuid).onRun request run).records.head? =
      some (0, .span (makeSpan (identified uuid request))) := rfl

/-- Every call is answered, with the outcome under the guard and the id of the request. -/
theorem exit_apply (timeout : Nat) (uuid : Uuid) (request : Request) (run : ApiRun) :
    ((apply timeout uuid).onRun request run).exit = some ((outcome timeout run).1,
      .response (propagateRequestId (identified uuid request) (outcome timeout run).2)) := by
  have hguard := Layer.exit_guarded timeout .elapsed onError handlePanic
    (declareBodyLimit (identified uuid request)) run
  exact Layer.exit_mapResponse hguard

end StarterHub
