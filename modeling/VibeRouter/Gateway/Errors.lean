import VibeRouter.Db.Schema

/-! # Errors

The normalized error taxonomy of the gateway.  A `Thrown` is whatever a `catch` may see: an
error of the gateway itself, another error object of the runtime, or a thrown value that is
not an error object; `toRouterError` brings each into the taxonomy. -/

namespace VibeRouter

/-- `ERROR_CODES`. -/
inductive ErrorCode
  | invalid_request | auth_error | rate_limited | provider_unavailable | context_exceeded
  | content_filtered | policy_blocked | scrubber_blocked | capability_missing
  | no_vision_provider | invalid_response | budget_exceeded | unknown
deriving DecidableEq, Repr

/-- `ERROR_HTTP_STATUS`. -/
def ERROR_HTTP_STATUS : ErrorCode → ℕ
  | .invalid_request => 400
  | .auth_error => 401
  | .rate_limited => 429
  | .provider_unavailable => 502
  | .context_exceeded => 400
  | .content_filtered => 422
  | .policy_blocked => 403
  | .scrubber_blocked => 422
  | .capability_missing => 400
  | .no_vision_provider => 409
  | .invalid_response => 502
  | .budget_exceeded => 402
  | .unknown => 500

/-- `RETRYABLE_CODES`. -/
def RETRYABLE_CODES : List ErrorCode := [.rate_limited, .provider_unavailable, .invalid_response]

/-- A value in the detail of an error or of an audit entry. -/
inductive DetailValue
  | str (s : String)
  | num (n : ℤ)
  | counts (cs : List (String × ℕ))
  | texts (ss : List String)
deriving DecidableEq

/-- `Record<string, unknown>`; the empty list stands for no detail. -/
abbrev Detail : Type := List (String × DetailValue)

structure RouterError where
  code : ErrorCode
  message : String
  detail : Detail := []
  retryAfterSeconds : Option ℚ := none
deriving DecidableEq

namespace RouterError

/-- The HTTP status a client sees. -/
def status (e : RouterError) : ℕ := ERROR_HTTP_STATUS e.code

/-- `detail?.[key]` when it is a string. -/
def detailText (e : RouterError) (key : String) : Option String :=
  match e.detail.lookup key with
  | some (.str s) => some s
  | _ => none

end RouterError

/-- What a `catch` may see. -/
inductive Thrown
  | router (e : RouterError)
  | error (message : String)
  | other
deriving DecidableEq

def toRouterError : Thrown → RouterError
  | .router e => e
  | .error message => { code := .unknown, message }
  | .other => { code := .unknown, message := "internal error" }

@[simp] theorem toRouterError_router (e : RouterError) : toRouterError (.router e) = e := rfl

/-- `throw new RouterError(code, message, { detail })`. -/
def routerError {α : Type} (code : ErrorCode) (message : String) (detail : Detail := []) :
    Except Thrown α :=
  .error (.router { code, message, detail })

end VibeRouter
