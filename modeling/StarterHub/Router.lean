import StarterHub.Middleware

/-!
# The router (`api/src/router/mod.rs`)

The routing table of axum, as far as `router` builds on it: a route answers GET (and HEAD) with its handler and every
other method with its own fallback, which is axum's empty `405` until `method_not_allowed_fallback` replaces it on the
routes registered so far.
-/

namespace StarterHub

open Http Json

/-! ### Routing tables -/

abbrev Endpoint : Type := Request → ApiRun

structure MethodRouter where
  handler : Endpoint
  fallback : Endpoint

/-- axum's built-in answer of a given status, with an empty body. -/
def builtin (status : StatusCode) : Endpoint := fun _ => answerAt 0 ([], ⟨status, .empty, ""⟩)

def getRoute (handler : Endpoint) : MethodRouter := ⟨handler, builtin .methodNotAllowed⟩

def MethodRouter.call (route : MethodRouter) (request : Request) : ApiRun :=
  match request.method with
  | .get | .head => route.handler request
  | _ => route.fallback request

/-- A `Router`: its routes, by the paths they match, and the fallback of everything else. -/
structure Router where
  routes : List ((String → Bool) × MethodRouter)
  notFound : Endpoint

namespace Router

def new : Router := ⟨[], builtin .notFound⟩

def route (self : Router) (path : String) (route : MethodRouter) : Router :=
  { self with routes := self.routes ++ [(fun p => decide (p = path), route)] }

def fallback (self : Router) (handler : Endpoint) : Router := { self with notFound := handler }

/-- `Router::method_not_allowed_fallback`: on all routes registered before. -/
def methodNotAllowedFallback (self : Router) (handler : Endpoint) : Router :=
  { self with routes := self.routes.map fun (path, route) => (path, { route with fallback := handler }) }

def merge (self : Router) (routes : List ((String → Bool) × MethodRouter)) : Router :=
  { self with routes := self.routes ++ routes }

def call (self : Router) (request : Request) : ApiRun :=
  match self.routes.find? fun (path, _) => path request.path with
  | some (_, route) => route.call request
  | none => self.notFound request

end Router

/-! ### Handlers -/

def statusOk : Value := .object [("status", .string "ok")]

def livez : Answer := ([], withStatus .ok statusOk)

def healthz : Answer := livez

def readyz : Except DbErr Unit → Answer
  | .ok () => ([], withStatus .ok statusOk)
  | .error err =>
    ([.event ⟨.warn, "readiness check failed: database unreachable", [("error", .text err.message)]⟩],
      withStatus .serviceUnavailable (errorEnvelope "database unreachable"))

def notFound : Answer := ApiError.notFound.intoResponse

def methodNotAllowed : Answer := ApiError.methodNotAllowed.intoResponse

/-! ### The table -/

/-- The state of the API, by what a ping of its pool does: when it ends and how, if it does. -/
structure AppState where
  ping : Option (Nat × Except DbErr Unit)

def readyzRun (state : AppState) : ApiRun :=
  match state.ping with
  | some (at', result) => answerAt at' (readyz result)
  | none => ⟨[], none⟩

/-- The routes of `SwaggerUi` for a document of a given title: the paths, each with its GET handler. -/
abbrev SwaggerUi : Type := String → List ((String → Bool) × Endpoint)

def router (swaggerUi : SwaggerUi) (state : AppState) (docs : Bool) (name : String) : Router :=
  let router := Router.new
    |>.route "/healthz" (getRoute fun _ => answerAt 0 healthz)
    |>.route "/livez" (getRoute fun _ => answerAt 0 livez)
    |>.route "/readyz" (getRoute fun _ => readyzRun state)
    |>.fallback (fun _ => answerAt 0 notFound)
    |>.methodNotAllowedFallback fun _ => answerAt 0 methodNotAllowed
  if docs then router.merge ((swaggerUi name).map fun (path, handler) => (path, getRoute handler)) else router

def onDocs (swaggerUi : SwaggerUi) (docs : Bool) (name path : String) : Bool :=
  docs && decide (path ∉ ["/healthz", "/livez", "/readyz"]) && (swaggerUi name).any fun (matches', _) => matches' path

/-! ### What answers a request -/

variable {swaggerUi : SwaggerUi} {state : AppState} {docs : Bool} {name : String} {request : Request}

/-- The probes, with the fallback of the other methods. -/
def probes (state : AppState) : List ((String → Bool) × MethodRouter) :=
  [(fun p => decide (p = "/healthz"), ⟨fun _ => answerAt 0 healthz, fun _ => answerAt 0 methodNotAllowed⟩),
    (fun p => decide (p = "/livez"), ⟨fun _ => answerAt 0 livez, fun _ => answerAt 0 methodNotAllowed⟩),
    (fun p => decide (p = "/readyz"), ⟨fun _ => readyzRun state, fun _ => answerAt 0 methodNotAllowed⟩)]

/-- The routes of `SwaggerUi` come after the probes, without their fallback. -/
theorem router_eq : router swaggerUi state docs name =
    ⟨probes state ++ if docs then (swaggerUi name).map fun (path, handler) => (path, getRoute handler) else [],
      fun _ => answerAt 0 notFound⟩ := by
  cases docs <;> rfl

private theorem call_getRoute {route : MethodRouter} (hh : request.method ≠ .head) :
    route.call request = if request.method = .get then route.handler request else route.fallback request := by
  unfold MethodRouter.call
  split <;> simp_all

/-- On a probe, a GET is answered by the probe and any other method by the fallback. -/
theorem call_probe (swaggerUi : SwaggerUi) (state : AppState) (docs : Bool) (name : String)
    (hpath : request.path ∈ ["/healthz", "/livez", "/readyz"]) (hh : request.method ≠ .head) :
    (request.method = .get ∧ (router swaggerUi state docs name).call request = answerAt 0 livez) ∨
    (request.method = .get ∧ (router swaggerUi state docs name).call request = readyzRun state) ∨
    (router swaggerUi state docs name).call request = answerAt 0 methodNotAllowed := by
  simp only [List.mem_cons, List.not_mem_nil, or_false] at hpath
  by_cases hget : request.method = .get <;> rcases hpath with hpath | hpath | hpath <;>
    simp [router_eq, Router.call, probes, hpath, call_getRoute hh, hget, healthz]

private theorem find_probes (hpath : request.path ∉ ["/healthz", "/livez", "/readyz"]) :
    (probes state).find? (fun (path, _) => path request.path) = none := by
  simp only [List.mem_cons, List.not_mem_nil, or_false, not_or] at hpath
  simp [probes, hpath]

/-- Off the probes, the routes of `SwaggerUi` decide. -/
private theorem call_beyond (hpath : request.path ∉ ["/healthz", "/livez", "/readyz"]) :
    (router swaggerUi state true name).call request =
      match (swaggerUi name).find? fun (path, _) => path request.path with
      | some (_, handler) => (getRoute handler).call request
      | none => answerAt 0 notFound := by
  have hfind : ((swaggerUi name).map fun (path, handler) => (path, getRoute handler)).find?
      (fun (path, _) => path request.path) =
        ((swaggerUi name).find? fun (path, _) => path request.path).map
          fun (path, handler) => (path, getRoute handler) :=
    List.find?_map
  rw [router_eq, Router.call, if_pos rfl, List.find?_append, find_probes hpath, Option.none_or, hfind]
  cases (swaggerUi name).find? fun (path, _) => path request.path <;> rfl

/-- On a route of `SwaggerUi`, a method other than GET meets axum's built-in answer. -/
theorem call_docs (h : onDocs swaggerUi docs name request.path = true) (hget : request.method ≠ .get)
    (hh : request.method ≠ .head) :
    (router swaggerUi state docs name).call request = builtin .methodNotAllowed request := by
  simp only [onDocs, Bool.and_eq_true, decide_eq_true_eq, List.any_eq_true] at h
  obtain ⟨⟨rfl, hpath⟩, ⟨matches', handler⟩, hmem, hmatch⟩ := h
  obtain ⟨⟨path, found⟩, hfound⟩ : ∃ route, (swaggerUi name).find? (fun (path, _) => path request.path) = some route :=
    Option.isSome_iff_exists.1 (List.find?_isSome.2 ⟨_, hmem, hmatch⟩)
  rw [call_beyond hpath, hfound]
  show (getRoute found).call request = _
  rw [call_getRoute hh, if_neg hget]
  rfl

theorem call_other (h : onDocs swaggerUi docs name request.path = false)
    (hpath : request.path ∉ ["/healthz", "/livez", "/readyz"]) :
    (router swaggerUi state docs name).call request = answerAt 0 notFound := by
  cases docs with
  | false => simp [router_eq, Router.call, find_probes hpath]
  | true =>
    have hnone : (swaggerUi name).find? (fun (path, _) => path request.path) = none := by
      refine List.find?_eq_none.2 fun route hmem hmatch => ?_
      have hany : ((swaggerUi name).any fun (matches', _) => matches' request.path) = true :=
        List.any_eq_true.2 ⟨route, hmem, hmatch⟩
      simp [onDocs, hpath, hany] at h
    rw [call_beyond hpath, hnone]

end StarterHub
