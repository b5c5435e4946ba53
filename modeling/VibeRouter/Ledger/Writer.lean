import VibeRouter.Ledger.Budget
import VibeRouter.Ledger.Cost
import VibeRouter.Policy.Cache

/-! # The ledger

`DbLedger.write` adds the row of a request to the usage ledger.  The row is keyed by the request
id, so that a second write of the same request changes nothing; the spend is recorded only by
the write that adds the row. -/

namespace VibeRouter

open Effects Async

/-- The status of a ledger row. -/
def statusFor (c : PipelineCtx) : RequestStatus :=
  match c.error with
  | none => .ok
  | some error => match error.code with
    | .policy_blocked => .policy_blocked
    | .scrubber_blocked => .scrubber_blocked
    | .budget_exceeded => .budget_exceeded
    | .rate_limited => .rate_limited
    | .capability_missing => .capability_missing
    | .no_vision_provider => .no_vision_provider
    | .provider_unavailable => .provider_error
    | .context_exceeded => .provider_error
    | .content_filtered => .provider_error
    | .invalid_request => .error
    | .auth_error => .error
    | .unknown => if error.message = "client aborted" then .client_abort else .error
    | .invalid_response => .error

namespace DbLedger

variable {S : Type}

/-- Prices of a model, kept in memory for a minute. -/
def pricingFor (modelId : Uuid) (ts : ℕ) : Async S (Option ModelPricingRow) := do
  match ← PolicyEngine.fresh (← op (.pricingCacheGet modelId)) with
  | some row => pure row
  | none => do
      let row ← await (op (.pricingAt modelId ts))
      op (.pricingCacheSet modelId ⟨row, (← dateNow) + 60000⟩)
      pure row

/-- The usage a request is charged for: nothing for a response from the cache. -/
def usageOf (c : PipelineCtx) : AIUsage :=
  if c.cacheHit then EMPTY_USAGE
  else match c.response with
    | some res => res.usage
    | none => EMPTY_USAGE

/-- Is there a response some provider has to be paid for? -/
def billable (c : PipelineCtx) : Bool := c.response.isSome && !c.cacheHit

def costOf (c : PipelineCtx) (pricing : Option ModelPricingRow) : CostResult :=
  if billable c then computeCost (usageOf c) pricing else ⟨some 0, false⟩

/-- The values of the row of a request. -/
def values (c : PipelineCtx) (auth : AuthContext) (cost : CostResult) (now : ℕ) :
    UsageLedgerValues :=
  let usage := usageOf c
  { requestId := c.requestId
    firmId := auth.firmId
    app := auth.app
    taskClassId := c.taskClass.map TaskClassRow.id
    userId := none
    modelRequested := c.envelope.modelRequested
    modelServed := c.response.map fun res => res.served.model
    providerId := c.route.map fun route => route.provider.id
    promptTokens := usage.promptTokens
    completionTokens := usage.completionTokens
    cachedReadTokens := usage.cachedReadTokens
    cacheWriteTokens := usage.cacheWriteTokens
    costCents := cost.costCents
    costUnknown := cost.costUnknown
    costEstimated := usage.estimated
    latencyMs := (now : ℤ) - c.startedAt
    status := statusFor c
    engagementRef := c.envelope.metadata.engagementRef
    clientRef := c.envelope.metadata.clientRef
    requestHash := c.requestHash }

/-- The price a request is charged at. -/
def pricingOf (c : PipelineCtx) : Async S (Option ModelPricingRow) :=
  match c.route with
  | some route => if billable c then pricingFor route.model.id c.startedAt else pure none
  | none => pure none

/-- Add the row of a request, and its cost when this added the row. -/
def insertRow (c : PipelineCtx) (auth : AuthContext) (pricing : Option ModelPricingRow) :
    Async S Unit := do
  let cost := costOf c pricing
  let inserted ← await (op (.insertUsage (values c auth cost (← dateNow))))
  match inserted, cost.costCents with
  | true, some cents =>
      if 0 < cents then recordSpend auth.firmId auth.app c.envelope.metadata.userId cents else pure ()
  | _, _ => pure ()

/-- `write` for the context `c`. -/
def writeCtx (c : PipelineCtx) : Async S Unit :=
  match c.auth with
  | none => pure ()
  | some auth => do insertRow c auth (← pricingOf c)

def write : Async PipelineCtx Unit := do writeCtx (← Code.read)

end DbLedger

end VibeRouter
