import StarterHub.RequestId

/-!
# What sanitation leaves in a request

`sanitize` reads the first `x-request-id` of a request and, when that one is not acceptable, removes them all.  A
request with a single id is therefore sanitized for good; a request whose first id is well formed is passed on as it
is, whatever the ids behind the first one hold.
-/

namespace StarterHub

open Http

/-- The headers of a request other than its ids, in order. -/
def otherHeaders (request : Request) : List (String × HeaderValue) :=
  request.headers.entries.filter fun e => decide (e.1 ≠ xRequestId)

/-- What sanitation promises about the request it passes on. -/
structure Sanitized (request passed : Request) : Prop where
  -- Every id still present is non-empty, at most 128 bytes long and printable.
  wellFormed : ∀ value ∈ passed.headers.getAll xRequestId, WellFormedId value
  -- Nothing but the ids is touched, ...
  others : otherHeaders passed = otherHeaders request
  rest : passed = { request with headers := passed.headers }
  -- ... and not even these when there is nothing to object to.
  untouched : (∀ value ∈ request.headers.getAll xRequestId, WellFormedId value) → passed = request

/-! ### The two branches -/

theorem sanitize_of_wellFormed {request : Request}
    (h : ∀ value, request.headers.get xRequestId = some value → WellFormedId value) : sanitize request = request := by
  unfold sanitize
  split
  · next value hget => rw [if_pos ((acceptable_iff value).2 (h value hget))]
  · rfl

theorem sanitize_of_not_wellFormed {request : Request} {value : HeaderValue}
    (hget : request.headers.get xRequestId = some value) (h : ¬ WellFormedId value) :
    sanitize request = { request with headers := request.headers.remove xRequestId } := by
  have ha : ¬ acceptable value = true := by rwa [acceptable_iff]
  simp only [sanitize, hget]
  rw [if_neg ha]

theorem otherHeaders_remove (request : Request) :
    otherHeaders { request with headers := request.headers.remove xRequestId } = otherHeaders request := by
  simp [otherHeaders, HeaderMap.remove, List.filter_filter]

private theorem get_mem_getAll {headers : HeaderMap} {name : String} {value : HeaderValue}
    (h : headers.get name = some value) : value ∈ headers.getAll name :=
  List.mem_of_mem_head? h

/-! ### The exact condition -/

/-- Sanitation keeps its promise iff, whenever the first id of the request is well formed, all of them are. -/
theorem sanitize_complete_iff (request : Request) :
    Sanitized request (sanitize request) ↔
      ((∀ value, request.headers.get xRequestId = some value → WellFormedId value) →
        ∀ value ∈ request.headers.getAll xRequestId, WellFormedId value) := by
  constructor
  · intro h hfirst
    have hwell := h.wellFormed
    rwa [sanitize_of_wellFormed hfirst] at hwell
  · intro h
    cases hget : request.headers.get xRequestId with
    | none =>
      have hfirst : ∀ value, request.headers.get xRequestId = some value → WellFormedId value := by simp [hget]
      rw [sanitize_of_wellFormed hfirst]
      exact ⟨h hfirst, rfl, rfl, fun _ => rfl⟩
    | some value =>
      by_cases hw : WellFormedId value
      · have hfirst : ∀ value', request.headers.get xRequestId = some value' → WellFormedId value' := by
          intro value' hget'
          rw [hget] at hget'
          cases hget'
          exact hw
        rw [sanitize_of_wellFormed hfirst]
        exact ⟨h hfirst, rfl, rfl, fun _ => rfl⟩
      · rw [sanitize_of_not_wellFormed hget hw]
        refine ⟨fun value' hmem => ?_, otherHeaders_remove request, rfl, fun hall => ?_⟩
        · simp at hmem
        · exact absurd (hall value (get_mem_getAll hget)) hw

/-- A good id in front of one with a space in it. -/
theorem sanitize_passes_second : ¬ ∀ request : Request, Sanitized request (sanitize request) := by
  intro h
  have hfirst : twoIds.headers.get xRequestId = some (fromStatic "trace-1" (by decide)) := by decide
  have hpassed : sanitize twoIds = twoIds := sanitize_of_wellFormed fun value hget => by
    rw [hfirst] at hget
    cases hget
    decide
  have hwell := (h twoIds).wellFormed
  rw [hpassed] at hwell
  exact absurd (hwell (fromStatic "a b" (by decide)) (by decide)) (by decide)

end StarterHub
