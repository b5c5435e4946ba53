import VibeRouter.Resilience.Executor

/-! # The chain of candidates

What `executeResilient` is for, in its own terms: the candidates are tried in order, each of
them once, until one serves the request; when nobody does, the errors they left decide what is
thrown.  A candidate passes the re-check of its route, the breaker and the semaphore, and then
has a bounded number of attempts.  A request that is aborted stops. -/

namespace VibeRouter

namespace Chain

open Effects Async

/-- The candidates in order: the primary, then the known models of the fallback chain without
repetition. -/
def candidates (effective : EffectivePolicy) (primary : ModelRow) : List ModelRow :=
  primary :: ((uniq effective.policy.fallbackChain).filter (· ≠ primary.id)).filterMap
    effective.modelsById.get

/-- What becomes of a candidate. -/
inductive Outcome
  | served (route : RouteDecision) (res : AIResponse)
  | failed (error : RouterError)
  | stopped

/-- How a chain ends. -/
inductive End
  | served (route : RouteDecision) (res : AIResponse)
  | exhausted (errors : List RouterError)
  | stopped

/-- A candidate that was not eligible. -/
def policySide (e : RouterError) : Bool := e.code = .capability_missing || e.code = .policy_blocked

/-- The error that stands for some collected ones: the last of a candidate that was eligible,
else the last. -/
def lastError (errors : List RouterError) : Option RouterError :=
  (errors.filter fun e => !policySide e).getLast?.or errors.getLast?

/-- An error after which another attempt is no use. -/
def isFinal (e : RouterError) : Bool := isTruncated e || decide (e.code ∉ RETRYABLE_CODES)

section
variable [Platform] (deps : PipelineDeps) (cfg : ResilienceConfig)

/-- One attempt, and what to do when it fails. -/
def attempt (route : RouteDecision) (onFailure : RouterError → Stage Outcome) : Stage Outcome := do
  if ← op .signalAborted then pure .stopped
  else match ← (executeAttempt cfg route).outcome with
  | .ok res => pure (.served route res)
  | .error err =>
      if ← op .signalAborted then pure .stopped
      else do
        noteFailure route false
        onFailure (toRouterError err)

/-- The attempts of one candidate, with `left` to follow the next one. -/
def attempts (route : RouteDecision) : ℕ → ℕ → Stage Outcome
  | 0, _ => attempt cfg route fun e => pure (.failed e)
  | left + 1, n => attempt cfg route fun e => do
      if isFinal e then pure (.failed e)
      else if ← backOff n e then attempts route left (n + 1)
      else pure (.failed e)

/-- A candidate that has a slot of the semaphore; it gives the slot back. -/
def serveHop (errors : List RouterError) (previousModel : String) (route : RouteDecision) :
    Stage Outcome := do
  enterHop route (lastError errors) previousModel
  let outcome ← attempts cfg route MAX_RETRIES 0
  let aborted ← op .signalAborted
  op (.shedRelease route.provider.id)
  match outcome, aborted with
  | .failed _, true => pure .stopped
  | outcome, _ => pure outcome

/-- One candidate. -/
def tryCandidate (errors : List RouterError) (previousModel : String) (model : ModelRow) :
    Stage Outcome := do
  match ← (routeForModel deps model).outcome with
  | .error err => do
      auditFrom previousModel model ("hop skipped: " ++ (toRouterError err).message)
      pure (.failed (toRouterError err))
  | .ok route =>
      if !(← op (.breakerAllow route.provider.id)) then do
        auditHop (if previousModel = "" then model.canonicalId else previousModel)
          model.canonicalId "breaker open"
        pure (.failed (circuitOpen route))
      else if !(← op (.shedAcquire route.provider.id)) then pure (.failed concurrencyLimit)
      else serveHop cfg errors previousModel route

/-- The candidates one by one, until one serves. -/
def firstServed : List ModelRow → List RouterError → String → Stage End
  | [], errors, _ => pure (.exhausted errors)
  | model :: models, errors, previousModel => do
      if ← op .signalAborted then pure .stopped
      else match ← tryCandidate deps cfg errors previousModel model with
      | .served route res => pure (.served route res)
      | .failed e => firstServed models (errors ++ [e]) model.canonicalId
      | .stopped => pure .stopped

/-- A whole chain under the signal of its request. -/
def run (effective : EffectivePolicy) (primary : ModelRow) : Stage End := do
  op (.openSignal cfg.totalTimeoutMs)
  let ended ← firstServed deps cfg (candidates effective primary) [] ""
  let timedOut ← op .timedOut
  op .disposeSignal
  match ended, timedOut with
  | .exhausted _, true => pure .stopped
  | ended, _ => pure ended

end

/-- What the executor does for the end of a chain: it returns the response, with the route that
served in the context, or throws. -/
def End.Agrees : End → Except Thrown AIResponse → PipelineCtx → Prop
  | .served route res, r, c => r = .ok res ∧ c.route = some route
  | .exhausted errors, r, _ => r = .error (.router ((lastError errors).getD noUsableModel))
  | .stopped, r, _ => ∃ e, r = .error e

end Chain

end VibeRouter
