import StarterHub.Deadlines
import StarterHub.Layering
import StarterHub.Masking

/-!
# From the configuration to the response

What the orchestrator and an outsider see of an application that was booted from its sources: `Config::load` decides
which router `Server::bind` assembles and under which budget, and the router under the stack decides the response.  The
probes keep their contract whatever the configuration and the database are, and the documentation is there only where
the sources name one of the two environments for exploration.
-/

namespace StarterHub

open Http Json Tower Clock

/-- The service of the listener, as `Server::bind` assembles it for the API of `main`. -/
def service (swaggerUi : SwaggerUi) (config : Config) (state : AppState) (uuid : Uuid) :
    Service Request Response Payload Telemetry Empty :=
  let server := apiServer config
  (apply server.timeout.toNanos uuid).layer (router swaggerUi state server.docs server.name).call

/-- A GET, or the HEAD that axum answers as one. -/
def Request.reads (request : Request) : Prop := request.method = .get ∨ request.method = .head

/-- The pool answers the ping within the budget. -/
def AppState.Pings (state : AppState) (timeout : Nat) : Prop := ∃ at' ≤ timeout, state.ping = some (at', .ok ())

/-- The one response to a request, with the instant at which it leaves. -/
def Responds (run : Run Response Payload Telemetry Empty) (at' : Nat) (status : StatusCode) (value : Value) : Prop :=
  ∃ response, run.exit = some (at', .response response) ∧ response.status = status ∧ response.body = value.text

/-- The environments in which `/docs` is mounted, by the texts that name them. -/
def exploration : List Scalar := [.string "local", .string "development"]

/-- What the application answers that was booted from these sources. -/
structure ContractLaw (name version : String) (sources : Sources) (config : Config) : Prop where
  -- A request has at least a second.
  budget : nanosPerSec ≤ (apiServer config).timeout.toNanos
  -- The process is alive, whatever the database does: at once.
  live : ∀ swaggerUi state uuid request, request.reads → request.path = "/livez" ∨ request.path = "/healthz" →
    Responds (service swaggerUi config state uuid request) 0 .ok statusOk
  -- It is ready iff the database answers in time; otherwise, and within the budget, it says that it is not.
  ready : ∀ swaggerUi state uuid request, request.reads → request.path = "/readyz" →
    ∃ at' ≤ (apiServer config).timeout.toNanos, ∃ status value,
      Responds (service swaggerUi config state uuid request) at' status value ∧
      (state.Pings (apiServer config).timeout.toNanos ∧ status = .ok ∧ value = statusOk ∨
        ¬ state.Pings (apiServer config).timeout.toNanos ∧ status = .serviceUnavailable ∧
          ∃ message, value = errorEnvelope message)
  -- A probe has no other method.
  method : ∀ swaggerUi state uuid request, ¬ request.reads → request.path ∈ ["/healthz", "/livez", "/readyz"] →
    Responds (service swaggerUi config state uuid request) 0 .methodNotAllowed (errorEnvelope "method not allowed")
  -- The documentation is mounted iff the most specific source that sets the environment says so by name, ...
  docs : (apiServer config).docs = true ↔
    ∃ value ∈ exploration, effective (sources.layers name version) ["environment"] = some value
  -- ... and elsewhere there is nothing but the probes.
  hidden : (apiServer config).docs = false → ∀ swaggerUi state uuid request,
    request.path ∉ ["/healthz", "/livez", "/readyz"] →
    Responds (service swaggerUi config state uuid request) 0 .notFound (errorEnvelope "resource not found")

/-! ### The stack around the router -/

variable {swaggerUi : SwaggerUi} {config : Config} {state : AppState} {uuid : Uuid} {request : Request}

/-- The router gets the method and the path of the request, and what the guard makes of its call leaves with its status
and its body. -/
private theorem responds_service (uuid : Uuid) {run : ApiRun} {value : Value}
    (hcall : ∀ request' : Request, request'.method = request.method → request'.path = request.path →
      (router swaggerUi state (apiServer config).docs (apiServer config).name).call request' = run)
    (hbody : (outcome (apiServer config).timeout.toNanos run).2.body = value.text) :
    Responds (service swaggerUi config state uuid request) (outcome (apiServer config).timeout.toNanos run).1
      (outcome (apiServer config).timeout.toNanos run).2.status value := by
  obtain ⟨headers, hid⟩ := identified_eq uuid request
  have hrun : (router swaggerUi state (apiServer config).docs (apiServer config).name).call
      ((apply (apiServer config).timeout.toNanos uuid).onRequest request) = run := by
    rw [onRequest_apply, hid]
    exact hcall _ rfl rfl
  have hservice : service swaggerUi config state uuid request =
      (apply (apiServer config).timeout.toNanos uuid).onRun request run := by
    rw [← hrun]
    rfl
  refine ⟨propagateRequestId (identified uuid request) (outcome (apiServer config).timeout.toNanos run).2, ?_,
    status_propagateRequestId .., (body_propagateRequestId ..).trans hbody⟩
  rw [hservice]
  exact exit_apply ..

/-- What the router answers in time is the response. -/
private theorem responds_of_call {answer : Answer} {at' : Nat} {value : Value}
    (hle : at' ≤ (apiServer config).timeout.toNanos)
    (hcall : ∀ request' : Request, request'.method = request.method → request'.path = request.path →
      (router swaggerUi state (apiServer config).docs (apiServer config).name).call request' = answerAt at' answer)
    (hbody : answer.2.body = value.text) :
    Responds (service swaggerUi config state uuid request) at' answer.2.status value := by
  have houtcome : outcome (apiServer config).timeout.toNanos (answerAt at' answer) = (at', answer.2) := by
    simp [outcome, Layer.guarded, answerAt, hle]
  have := responds_service uuid hcall (by rw [houtcome]; exact hbody)
  rwa [houtcome] at this

/-! ### The routes -/

section

variable {docs : Bool} {name : String} {request' : Request}

private theorem call_livez (hm : request'.reads) (hp : request'.path = "/livez" ∨ request'.path = "/healthz") :
    (router swaggerUi state docs name).call request' = answerAt 0 livez := by
  rcases hm with hm | hm <;> rcases hp with hp | hp <;>
    simp [router_eq, Router.call, probes, MethodRouter.call, hm, hp, healthz]

private theorem call_readyz (hm : request'.reads) (hp : request'.path = "/readyz") :
    (router swaggerUi state docs name).call request' = readyzRun state := by
  rcases hm with hm | hm <;> simp [router_eq, Router.call, probes, MethodRouter.call, hm, hp]

private theorem call_method (hm : ¬ request'.reads) (hp : request'.path ∈ ["/healthz", "/livez", "/readyz"]) :
    (router swaggerUi state docs name).call request' = answerAt 0 methodNotAllowed := by
  simp only [Request.reads, not_or] at hm
  have hfallback : ∀ route : MethodRouter, route.call request' = route.fallback request' := by
    intro route
    unfold MethodRouter.call
    split
    · next h => exact absurd h hm.1
    · next h => exact absurd h hm.2
    · rfl
  simp only [List.mem_cons, List.not_mem_nil, or_false] at hp
  rcases hp with hp | hp | hp <;> simp [router_eq, Router.call, probes, hfallback, hp]

end

/-- The ping that answers in time makes the probe ready, everything else unavailable. -/
private theorem outcome_readyz (timeout : Nat) (state : AppState) :
    (outcome timeout (readyzRun state)).1 ≤ timeout ∧ ∃ value,
      (outcome timeout (readyzRun state)).2.body = value.text ∧
      (state.Pings timeout ∧ (outcome timeout (readyzRun state)).2.status = .ok ∧ value = statusOk ∨
        ¬ state.Pings timeout ∧ (outcome timeout (readyzRun state)).2.status = .serviceUnavailable ∧
          ∃ message, value = errorEnvelope message) := by
  obtain ⟨ping⟩ := state
  have hlate : ∀ run : ApiRun, outcome timeout run = (timeout, (onError .elapsed).2) →
      ¬ (AppState.mk ping).Pings timeout →
      (outcome timeout run).1 ≤ timeout ∧ ∃ value, (outcome timeout run).2.body = value.text ∧
        ((AppState.mk ping).Pings timeout ∧ (outcome timeout run).2.status = .ok ∧ value = statusOk ∨
          ¬ (AppState.mk ping).Pings timeout ∧ (outcome timeout run).2.status = .serviceUnavailable ∧
            ∃ message, value = errorEnvelope message) := by
    intro run hrun hno
    rw [hrun]
    exact ⟨Nat.le_refl _, _, rfl, .inr ⟨hno, rfl, _, rfl⟩⟩
  cases ping with
  | none => exact hlate _ rfl (by rintro ⟨_, _, h⟩; cases h)
  | some p =>
    obtain ⟨at', result⟩ := p
    by_cases hle : at' ≤ timeout
    · have hanswer : outcome timeout (readyzRun ⟨some (at', result)⟩) = (at', (readyz result).2) := by
        simp [outcome, Layer.guarded, readyzRun, answerAt, hle]
      rw [hanswer]
      refine ⟨hle, ?_⟩
      cases result with
      | ok => exact ⟨statusOk, rfl, .inl ⟨⟨at', hle, rfl⟩, rfl, rfl⟩⟩
      | error err =>
        refine ⟨_, rfl, .inr ⟨?_, rfl, _, rfl⟩⟩
        rintro ⟨_, _, h⟩
        cases h
    · refine hlate _ ?_ ?_
      · simp [outcome, Layer.guarded, readyzRun, answerAt, hle]
      · rintro ⟨_, h, heq⟩
        cases heq
        exact hle h

/-! ### The law -/

private theorem exposesDocs_iff {value : Option Scalar} {environment : Environment}
    (h : (value.bind fun v => Environment.deserialize (.scalar v)) = some environment) :
    environment.exposesDocs = true ↔ ∃ v ∈ exploration, value = some v := by
  cases value with
  | none => cases h
  | some v =>
    cases v with
    | string name =>
      have hname : Environment.ofName name = some environment := h
      unfold Environment.ofName at hname
      split at hname
      · cases hname
        exact iff_of_true rfl ⟨.string "local", by simp [exploration], rfl⟩
      · cases hname
        exact iff_of_true rfl ⟨.string "development", by simp [exploration], rfl⟩
      · cases hname
        exact iff_of_false (by decide) (by simp [exploration])
      · cases hname
        exact iff_of_false (by decide) (by simp [exploration])
      · cases hname
    | _ => cases h

/-- Whatever the settings are, the application that is booted from sources with no path above or below one keeps the
contract. -/
theorem contract {name version : String} {sources : Sources} (hflat : sources.Flat)
    (hload : Config.load name version sources = .ok config) : ContractLaw name version sources config := by
  obtain ⟨-, hreads, hvalid⟩ := (load_iff hflat).1 hload
  refine ⟨?_, fun swaggerUi state uuid request hm hp => ?_, fun swaggerUi state uuid request hm hp => ?_,
    fun swaggerUi state uuid request hm hp => ?_, ?_, fun hdocs swaggerUi state uuid request hp => ?_⟩
  · have hpos : 1 ≤ config.server.timeout.toNat := UInt64.lt_iff_toNat_lt.1 hvalid.timeout
    exact Nat.le_trans (Nat.le_mul_of_pos_left _ hpos) (Nat.le_add_right _ _)
  · refine responds_of_call (Nat.zero_le _) (fun request' h h' => call_livez ?_ (by rwa [h'])) rfl
    rwa [Request.reads, h]
  · obtain ⟨hle, value, hbody, hcases⟩ := outcome_readyz (apiServer config).timeout.toNanos state
    refine ⟨_, hle, _, value, responds_service _ (fun request' h h' => call_readyz ?_ (by rwa [h'])) hbody, hcases⟩
    rwa [Request.reads, h]
  · refine responds_of_call (Nat.zero_le _) (fun request' h h' => call_method ?_ (by rwa [h'])) rfl
    rwa [Request.reads, h]
  · exact exposesDocs_iff hreads.environment
  · refine responds_of_call (Nat.zero_le _) (fun request' h h' => call_other ?_ (by rwa [h'])) rfl
    simp [onDocs, hdocs]

/-- A staging deployment. -/
theorem contract_staging : ∃ config,
    Config.load "starterhub" "1.0.0" { vars := [("APP_ENVIRONMENT", "staging")] } = .ok config ∧
      (apiServer config).docs = false ∧
      ContractLaw "starterhub" "1.0.0" { vars := [("APP_ENVIRONMENT", "staging")] } config :=
  ⟨_, rfl, rfl, contract (by decide) rfl⟩

end StarterHub
