import StarterHub.Lib.Http
import StarterHub.Lib.Json
import StarterHub.Lib.Tower
import StarterHub.Runtime

/-!
# Requests, responses and errors of the API (`api/src/error.rs`, `api/src/extract.rs`)

What goes through the stack of the API, and the ways a handler may end: with a value to serialize, with an `ApiError`,
or with a panic.  Every `ApiError` is rendered in one place, as an object with the single key `error`; a 5xx hides its
message there and logs it instead.
-/

namespace StarterHub

open Http Json

/-! ### Messages -/

inductive Method where
  | get | head | post | put | delete | patch | options | trace | connect
  | extension (name : String)
  deriving DecidableEq, Repr

/-- A request, with the size cap that `DefaultBodyLimit` attaches to it. -/
structure Request where
  method : Method
  path : String
  uri : String
  headers : HeaderMap
  bodyLimit : Option Nat

structure Response where
  status : StatusCode
  headers : HeaderMap
  body : String
  deriving DecidableEq

structure Span where
  name : String
  method : Method
  uri : String
  requestId : String
  deriving DecidableEq, Repr

inductive Telemetry where
  | event (e : Event)
  | span (s : Span)
  deriving DecidableEq, Repr

/-- The payload of a panic, by what `downcast_ref` finds in it. -/
inductive Payload where
  | string (s : String)
  | str (s : String)
  | other
  deriving DecidableEq, Repr

/-- A `BoxError`: tower's `Elapsed`, or any other error by its `Display`. -/
inductive BoxError where
  | elapsed
  | other (message : String)
  deriving DecidableEq, Repr

/-- A call below `timeout::handle`. -/
abbrev ApiRun : Type := Tower.Run Response Payload Telemetry BoxError

/-- What a handler function makes: lines for the journal, and a response. -/
abbrev Answer : Type := List Telemetry × Response

def fromStatic (text : String) (h : text.toUTF8.data.toList.all isLegal = true) : HeaderValue :=
  ⟨text.toUTF8.data.toList, h⟩

def applicationJson : HeaderValue := fromStatic "application/json" (by decide)

def textPlain : HeaderValue := fromStatic "text/plain; charset=utf-8" (by decide)

def respond (status : StatusCode) (contentType : HeaderValue) (body : String) : Response :=
  ⟨status, HeaderMap.empty.insert "content-type" contentType, body⟩

/-- `IntoResponse` of `axum::Json`, which `extract::Json` delegates to: the serialized value, or a 500 with the text of
the `serde_json` error. -/
def jsonIntoResponse : Except String Value → Response
  | .ok value => respond .ok applicationJson value.text
  | .error error => respond .internalServerError textPlain error

/-- `(status, axum::Json(value)).into_response()` of a value that always serializes. -/
def withStatus (status : StatusCode) (value : Value) : Response := { jsonIntoResponse (.ok value) with status }

def errorEnvelope (message : String) : Value := .object [("error", .string message)]

/-! ### Errors -/

/-- A `JsonRejection` or a `PathRejection`, by its `status()` and its `body_text()`. -/
structure Rejection where
  status : StatusCode
  bodyText : String
  deriving DecidableEq

inductive ApiError where
  | notFound
  | methodNotAllowed
  | badRequest (message : String)
  | conflict (message : String)
  | jsonRejection (rejection : Rejection)
  | pathRejection (rejection : Rejection)
  | database (error : DbErr)
  | internal (error : AnyhowError)
  deriving DecidableEq

namespace ApiError

def statusCode : ApiError → StatusCode
  | notFound => .notFound
  | methodNotAllowed => .methodNotAllowed
  | badRequest _ => .badRequest
  | conflict _ => .conflict
  | jsonRejection rejection => rejection.status
  | pathRejection rejection => rejection.status
  | database _ => .internalServerError
  | internal _ => .internalServerError

def display : ApiError → String
  | notFound => "resource not found"
  | methodNotAllowed => "method not allowed"
  | badRequest message => message
  | conflict message => message
  | jsonRejection rejection => rejection.bodyText
  | pathRejection rejection => rejection.bodyText
  | database error => error.message
  | internal error => error.message

/-- `{self:#}`: the whole chain of an `anyhow::Error`, the `Display` of everything else. -/
def alternate : ApiError → String
  | internal error => error.alternate
  | error => error.display

def intoResponse (self : ApiError) : Answer :=
  let status := self.statusCode
  if status.isServerError then
    ([.event ⟨.error, "internal server error", [("error", .text self.alternate)]⟩],
      withStatus status (errorEnvelope "internal server error"))
  else ([], withStatus status (errorEnvelope self.display))

@[simp] theorem status_intoResponse (self : ApiError) : self.intoResponse.2.status = self.statusCode := by
  unfold intoResponse
  dsimp
  split <;> rfl

/-- Only the status decides whether the message is shown. -/
theorem intoResponse_eq (self : ApiError) : self.intoResponse.2 = withStatus self.statusCode
    (errorEnvelope (if self.statusCode.isServerError then "internal server error" else self.display)) := by
  unfold intoResponse
  dsimp
  split <;> rfl

end ApiError

/-! ### Handlers -/

/-- How a handler that returns `ApiResult<extract::Json<T>>` ends (a rejected extractor included), and when: with
`Ok` and what serializing the value gives, with an `ApiError`, with a panic, or never. -/
inductive HandlerEnd where
  | returned (at' : Nat) (result : Except ApiError (Except String Value))
  | panicked (at' : Nat) (payload : Payload)
  | pending

def answerAt (at' : Nat) (answer : Answer) : ApiRun :=
  ⟨answer.1.map fun r => (at', r), some (at', .response answer.2)⟩

def HandlerEnd.run : HandlerEnd → ApiRun
  | returned at' (.ok serialized) => answerAt at' ([], jsonIntoResponse serialized)
  | returned at' (.error error) => answerAt at' error.intoResponse
  | panicked at' payload => ⟨[], some (at', .panicked payload)⟩
  | pending => ⟨[], none⟩

end StarterHub
