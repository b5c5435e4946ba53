import VibeRouter.Gateway.Verify
import VibeRouter.Lib.Calendar
import VibeRouter.Policy.Engine
import VibeRouter.Protect.Scrub

/-! # The context of a request

The object the pipeline stages share, what they depend on, and the audit entries they emit. -/

namespace VibeRouter

structure AuthContext where
  firmId : Uuid
  app : String
  scopes : List String
  tokenId : Uuid
deriving DecidableEq

/-- An adapter, known by the provider kind it is registered for. -/
structure GatewayAdapter where
  kind : ProviderKind
deriving DecidableEq

structure ExecuteContext where
  providerId : Uuid
  model : String
  baseUrl : String
  apiKey : Option String := none
  modelMapping : List (String × String) := []
  promptCaching : Bool := false
  thinkingBudget : Option ℕ := none
deriving DecidableEq

structure RouteDecision where
  provider : ProviderRow
  model : ModelRow
  adapter : GatewayAdapter
  executeCtx : ExecuteContext
deriving DecidableEq

/-- `scrubbed`: counts only. -/
structure Scrubbed where
  mode : ScrubberMode
  counts : List (String × ℕ)
deriving DecidableEq

/-- The context; the stream a streaming request produces is returned by `stageAdapt`. -/
structure PipelineCtx where
  requestId : String
  requestHash : Digest
  startedAt : ℕ
  envelope : AIRequest
  auth : Option AuthContext := none
  taskClass : Option TaskClassRow := none
  effective : Option EffectivePolicy := none
  route : Option RouteDecision := none
  response : Option AIResponse := none
  error : Option RouterError := none
  scrubbed : Option Scrubbed := none
  cloudEnvelope : Option AIRequest := none
  cloudBlockedCounts : Option (List (String × ℕ)) := none
  cloudBlockAudited : Bool := false
  budgetWarnings : List String := []
  cacheHit : Bool := false
  routeError : Option RouterError := none

section
variable [Platform]

/-- The correlation key of a request. -/
def requestHash (messages : List AIMessage) : Digest :=
  Platform.sha256 (Json.canonicalize Platform.numberText (.arr (messages.map AIMessage.toJson)))

/-- `newPipelineCtx(envelope)`, with the values it draws for the id and the time. -/
def newPipelineCtx (requestId : String) (startedAt : ℕ) (envelope : AIRequest) : PipelineCtx :=
  { requestId, requestHash := requestHash envelope.messages, startedAt, envelope }

end

structure ResilienceConfig where
  totalTimeoutMs : ℕ
  streamIdleTimeoutMs : ℕ
  verifyResponses : Bool := true
  schemaValidationDefault : SchemaValidationMode := .structural

/-- What the pipeline is wired with.  An absent audit or health hook is one that does nothing. -/
structure PipelineDeps where
  adapters : ProviderKind → Option GatewayAdapter
  engineTtlMs : ℕ := 30000
  getApiKey : Bool := true
  resilience : Option ResilienceConfig := none
  rateLimits : Bool := false
  responseCache : Bool := false
  ssrfDenyPrivateCloud : Bool := true

/-! ### Budget periods -/

/-- A calendar month, counted from January 1970. -/
abbrev Period : Type := ℕ

def currentPeriod (now : ℕ) : Period := Calendar.monthOf (now / 86400000)

/-- `Date.UTC(year, month, 1)`. -/
def Period.start (p : Period) : ℕ := Calendar.firstDay p * 86400000

/-- `yyyymm`. -/
def Period.text (p : Period) : String :=
  let month := p % 12 + 1
  toString (1970 + p / 12) ++ (if month < 10 then "0" else "") ++ toString month

/-- `task_class` is a scope of checks only; spend is recorded for the others. -/
inductive CheckScope
  | firm | app | user | task_class
deriving DecidableEq, Repr

def CheckScope.text : CheckScope → String
  | firm => "firm"
  | app => "app"
  | user => "user"
  | task_class => "task_class"

/-- Spend in millionths of a cent, limit in cents. -/
structure BudgetScopeCheck where
  scope : CheckScope
  scopeRef : String
  limitCents : ℕ
  spentCents : ℤ
deriving DecidableEq

/-! ### Audit entries -/

/-- The event of an audit entry with its detail. -/
inductive AuditEvent
  | rate_limited (key : String) (retryAfterSeconds : ℕ)
  | budget_soft_warning (check : BudgetScopeCheck) (period : Period)
  | blocked_scrubber (counts : List (String × ℕ))
  | scrubber_redacted (counts : List (String × ℕ)) (fallbackOnly : Bool)
  | scrubber_warning (counts : List (String × ℕ)) (fallbackOnly : Bool)
  | capability_upgrade (upgrade : CapabilityUpgrade)
  | max_tokens_clamped (requested served : ℤ)
  | response_rejected (reason : InvalidResponseReason) (path : Option JsString)
  | response_soft_finding (count : ℕ) (path : JsString)
  | fallback_hop (source target reason : String)
  | request (stream : Bool) (modelRequested : Option String) (served : Option Served)
  | blocked_policy (code : ErrorCode) (reason : String)
  | provider_error (code : ErrorCode) (providerStatus : Option ℤ) (retryable : Bool)

structure AuditEntry where
  firmId : Uuid
  app : String
  taskClass : Option String := none
  model : Option String := none
  provider : Option String := none
  requestHash : Option Digest := none
  event : AuditEvent

/-- `text.slice(0, n)`. -/
def clip (n : ℕ) (text : String) : String := String.ofList (text.toList.take n)

/-- An audit path is capped at 200 characters. -/
def clipPath (path : JsString) : JsString := path.take 200

end VibeRouter
