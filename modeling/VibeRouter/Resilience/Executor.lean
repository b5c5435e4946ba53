import VibeRouter.Gateway.Stages
import VibeRouter.Lib.Generator
import VibeRouter.Resilience.Backoff

/-! # Resilient execution

Two executors over the candidate chain of a request.  `executeResilient` tries the hops one by
one, each with retries, and returns the first usable response.  `executeResilientStream` is a
generator: it relays the stream of the first hop that produces content, and moves on to another
hop only as long as nothing has been relayed.

A generator body throws an `Abrupt`: an exception, or the completion by which a consumer that
is done makes it return, which no `catch` sees. -/

namespace VibeRouter

open Effects Async

variable [Platform] (deps : PipelineDeps) (cfg : ResilienceConfig)

/-! ### Audit -/

/-- `deps.audit?.(…)` when the request is authenticated. -/
def auditAs (model : Option String) (event : AuditEvent) : Stage Unit := do
  let c ← ctx
  match c.auth with
  | none => pure ()
  | some auth =>
      op (.audit
        { firmId := auth.firmId, app := auth.app, taskClass := c.taskClass.map TaskClassRow.key,
          model, requestHash := some c.requestHash, event })

def auditRejected (model : String) (reason : InvalidResponseReason) (path : Option JsString) :
    Stage Unit :=
  auditAs (some model) (.response_rejected reason (path.map clipPath))

def auditSoftFindings (model : String) (soft : List SoftFinding) : Stage Unit :=
  match soft with
  | [] => pure ()
  | f :: _ => auditAs (some model) (.response_soft_finding soft.length (clipPath f.path))

def auditHop (source target reason : String) : Stage Unit :=
  auditAs none (.fallback_hop source target (clip 300 reason))

/-- `if (previousModel) auditHop(…)`. -/
def auditFrom (previousModel : String) (model : ModelRow) (reason : String) : Stage Unit :=
  if previousModel = "" then pure () else auditHop previousModel model.canonicalId reason

/-- Audited when the model's own output ceiling is below what the caller asked. -/
def auditClamp (route : RouteDecision) : Stage Unit := do
  match (← ctx).envelope.maxTokens, route.model.maxOutput with
  | some requested, some limit =>
      if requested ≤ limit then pure ()
      else auditAs (some route.model.canonicalId) (.max_tokens_clamped requested limit)
  | _, _ => pure ()

/-- `deps.recordHealth?.(…)`. -/
def recordHealth (route : RouteDecision) (ok : Bool) : Stage Unit := do
  match (← ctx).auth with
  | some auth => op (.recordHealth route auth.firmId ok)
  | none => throw (.error "Cannot read properties of undefined (reading 'firmId')")

/-! ### Candidates -/

/-- The policy-selected primary, then the fallback chain without it. -/
def candidateModels (effective : EffectivePolicy) (env : AIRequest) : Except Thrown (List Uuid) := do
  let primary ← selectModel effective env
  pure (primary.id :: effective.policy.fallbackChain.filter (· ≠ primary.id))

/-- The envelope for one hop: the redacted copy for a cloud hop when there is one. -/
def hopEnvelope (route : RouteDecision) (c : PipelineCtx) : AIRequest :=
  let base := match c.cloudEnvelope with
    | some cloud => if isLocalKind route.model.providerKind then c.envelope else cloud
    | none => c.envelope
  clampToModel base route.model

def preferError (prev : Option RouterError) (next : RouterError) : RouterError :=
  let policySide := fun code : ErrorCode => code = .capability_missing ∨ code = .policy_blocked
  match prev with
  | some p => if policySide next.code ∧ ¬policySide p.code then p else next
  | none => next

/-! ### One hop with retries -/

/-- What a finding of the verifier is thrown as. -/
def invalidResponse (finding : VerifyFinding) : Thrown :=
  .router
    { code := .invalid_response, message := finding.message
      detail := ("reason", .str finding.reason.text) ::
        (match finding.path with
          | some path => if path = [] then [] else [("path", .str (clipPath path).toText)]
          | none => []) }

/-- Verify the result of a hop, not just that there is one. -/
def verifyHop (route : RouteDecision) (res : AIResponse) : Stage Unit := do
  let (finding, soft) ← Code.ofExcept
    (verifyResponse res (hopEnvelope route (← ctx)) cfg.schemaValidationDefault)
  match finding with
  | some finding => do
      auditRejected route.model.canonicalId finding.reason finding.path
      throw (invalidResponse finding)
  | none => auditSoftFindings route.model.canonicalId soft

/-- Verification can be switched off. -/
def verifyIfEnabled (route : RouteDecision) (res : AIResponse) : Stage Unit :=
  if cfg.verifyResponses then verifyHop cfg route res else pure ()

/-- The `try` block of one attempt. -/
def executeAttempt (route : RouteDecision) : Stage AIResponse := do
  let c ← ctx
  let res ← await (op (.execute c route (hopEnvelope route c)))
  verifyIfEnabled cfg route res
  op (.breakerRecord route.provider.id true)
  recordHealth route true
  pure res

/-- Truncation is deterministic: another attempt of the same model truncates again. -/
def isTruncated (rerr : RouterError) : Bool :=
  rerr.code = .invalid_response ∧ rerr.detailText "reason" = some "json_truncated"

/-- Wait before the next attempt; `false` when the wait was aborted. -/
def backOff (attempt : ℕ) (rerr : RouterError) : Stage Bool := do
  let rand ← match rerr.retryAfterSeconds with
    | some _ => pure 0
    | none => op .random
  op (.sleep (retryDelayMs attempt rerr.retryAfterSeconds rand))

/-- A failure counts against the provider unless the request was given up. -/
def noteFailure (route : RouteDecision) (givenUp : Bool) : Stage Unit :=
  if givenUp then pure ()
  else do
    op (.breakerRecord route.provider.id false)
    recordHealth route false

/-- Is there another attempt to make? -/
def retryOrThrow (attempt : ℕ) (rerr : RouterError) (aborted : Bool) : Stage Unit :=
  if isTruncated rerr then throw (.router rerr)
  else if rerr.code ∉ RETRYABLE_CODES ∨ attempt = MAX_RETRIES ∨ aborted = true then
    throw (.router rerr)
  else do
    if ← backOff attempt rerr then pure () else throw (.router rerr)

/-- The `catch` block of one attempt; it returns when there is another attempt to make. -/
def afterFailure (route : RouteDecision) (attempt : ℕ) (rerr : RouterError) : Stage Unit := do
  let aborted ← op .signalAborted
  noteFailure route aborted
  retryOrThrow attempt rerr aborted

/-- The retry loop of one hop, with `left` attempts left. -/
def retryLoop (route : RouteDecision) : ℕ → ℕ → Option RouterError → Stage AIResponse
  | 0, _, lastErr =>
      throw (.router (lastErr.getD { code := .unknown, message := "retry loop exhausted" }))
  | left + 1, attempt, lastErr => do
      if ← op .signalAborted then
        throw (.router (lastErr.getD { code := .unknown, message := "aborted" }))
      else do
        match ← (executeAttempt cfg route).outcome with
        | .ok res => pure res
        | .error err => do
            afterFailure route attempt (toRouterError err)
            retryLoop route left (attempt + 1) (some (toRouterError err))

def executeHopWithRetries (route : RouteDecision) : Stage AIResponse :=
  retryLoop cfg route (MAX_RETRIES + 1) 0 none

/-! ### Admission of a hop -/

def circuitOpen (route : RouteDecision) : RouterError :=
  { code := .provider_unavailable, message := "circuit open for " ++ route.provider.label }

def concurrencyLimit : RouterError :=
  { code := .rate_limited, message := "upstream concurrency limit reached",
    retryAfterSeconds := some 1 }

def noUsableModel : RouterError :=
  { code := .provider_unavailable, message := "no usable model in policy chain" }

/-- What admission finds: a route with a slot of the semaphore, or the error to remember. -/
inductive Admission
  | admitted (route : RouteDecision)
  | skipped (error : RouterError)

/-- Route a hop, ask the breaker, take a slot.  Only the executor without streaming audits a
hop that cannot be routed. -/
def admitHop (auditSkips : Bool) (model : ModelRow) (lastErr : Option RouterError)
    (previousModel : String) : Stage Admission := do
  match ← (routeForModel deps model).outcome with
  | .error err => do
      let rerr := toRouterError err
      if auditSkips then auditFrom previousModel model ("hop skipped: " ++ rerr.message)
      else pure ()
      pure (.skipped (preferError lastErr rerr))
  | .ok route => do
      if !(← op (.breakerAllow route.provider.id)) then do
        auditHop (if previousModel = "" then model.canonicalId else previousModel)
          model.canonicalId "breaker open"
        pure (.skipped (circuitOpen route))
      else if !(← op (.shedAcquire route.provider.id)) then pure (.skipped concurrencyLimit)
      else pure (.admitted route)

/-- What every admitted hop does first. -/
def enterHop (route : RouteDecision) (lastErr : Option RouterError) (previousModel : String) :
    Stage Unit := do
  auditFrom previousModel route.model ((lastErr.map RouterError.message).getD "fallback")
  auditClamp route
  assign fun c => { c with route := some route }

/-! ### Without streaming -/

/-- One admitted hop: its response, or its error and whether the request was aborted by then. -/
def runHop (route : RouteDecision) (lastErr : Option RouterError) (previousModel : String) :
    Stage (Except (RouterError × Bool) AIResponse) :=
  let hop : Stage AIResponse := do
    enterHop route lastErr previousModel
    executeHopWithRetries cfg route
  let caught : Stage (Except (RouterError × Bool) AIResponse) := do
    match ← hop.outcome with
    | .ok res => pure (.ok res)
    | .error err => pure (.error (toRouterError err, ← op .signalAborted))
  caught.ensure (op (.shedRelease route.provider.id))

/-- The loop over the candidates: the response of a hop, or the last error. -/
def hopLoop (effective : EffectivePolicy) :
    List Uuid → Option RouterError → String → Stage (Except (Option RouterError) AIResponse)
  | [], lastErr, _ => pure (.error lastErr)
  | modelId :: ids, lastErr, previousModel => do
      if ← op .signalAborted then pure (.error lastErr)
      else match effective.modelsById.get modelId with
      | none => hopLoop effective ids lastErr previousModel
      | some model => do
          match ← admitHop deps true model lastErr previousModel with
          | .skipped rerr => hopLoop effective ids (some rerr) model.canonicalId
          | .admitted route => do
              match ← runHop cfg route lastErr previousModel with
              | .ok res => pure (.ok res)
              | .error (rerr, true) => pure (.error (some rerr))
              | .error (rerr, false) => hopLoop effective ids (some rerr) model.canonicalId

def totalTimeout (message : String) : RouterError :=
  { code := .provider_unavailable, message, detail := [("reason", .str "total_timeout")] }

def executeResilient : Stage AIResponse := do
  let effective ← requireEffective
  op (.openSignal cfg.totalTimeoutMs)
  let body : Stage AIResponse := do
    let ids ← Code.ofExcept (candidateModels effective (← ctx).envelope)
    match ← hopLoop deps cfg effective ids none "" with
    | .ok res => pure res
    | .error lastErr => do
        if ← op .timedOut then throw (.router (totalTimeout "upstream timed out"))
        else throw (.router (lastErr.getD noUsableModel))
  body.ensure (op .disposeSignal)

/-! ### Streaming -/

/-- How a generator body ends early. -/
inductive Abrupt
  | thrown (e : Thrown)
  | returned
deriving DecidableEq

/-- What a generator yields: a chunk, with the context as the consumer then sees it. -/
abbrev Yielded : Type := StreamChunk × PipelineCtx

/-- The body of a generator over the context. -/
abbrev Generator (α : Type) : Type :=
  Code (GenOp Op Yielded) (GenOp.Answer Op.Answer Yielded) PipelineCtx Abrupt α

/-- Code without `yield` inside a generator. -/
def inGenerator {α : Type} (c : Stage α) : Generator α := c.embed Yielded .thrown

/-- How the `try` block of a hop ends: the stream is exhausted, or an exception reaches the
`catch` block, and whether content had been seen. -/
inductive HopEnd
  | finished (contentSeen : Bool)
  | failed (err : Thrown) (contentSeen : Bool)

/-- `yield`.  When the consumer returns instead of resuming, the adapter's stream is closed; an
exception of that takes the place of the return. -/
def yieldChunk (chunk : StreamChunk) : Generator (Option Thrown) := do
  let resumed : Resume ← Code.perform (GenOp.yield (chunk, ← Code.read))
  match resumed with
  | .next => pure none
  | .return_ => do
      match ← inGenerator (op .closeStream) with
      | .ok () => throw .returned
      | .error e => pure (some e)

/-- `for (const chunk of chunks) yield chunk`. -/
def yieldAll : List StreamChunk → Generator (Option Thrown)
  | [] => pure none
  | chunk :: chunks => do
      match ← yieldChunk chunk with
      | some e => pure (some e)
      | none => yieldAll chunks

/-- The first content chunk stops the total timeout. -/
def commit (contentSeen : Bool) : Generator Unit :=
  if contentSeen then pure () else inGenerator (op .clearTotalTimeout)

/-- The loop over the adapter's stream.  Frames without content are held back until the first
content chunk. -/
def relayStream : List StreamChunk → Bool → List StreamChunk → Generator HopEnd
  | chunks, contentSeen, pending => do
      match ← inGenerator (op .pull) with
      | .error e => pure (.failed e contentSeen)
      | .ok () => match chunks with
        | [] => pure (.finished contentSeen)
        | chunk :: rest => do
            inGenerator (op (.armIdle cfg.streamIdleTimeoutMs))
            if !contentSeen && !chunk.isContent then
              relayStream rest false (pending ++ [chunk])
            else do
              commit contentSeen
              match ← yieldAll (pending ++ [chunk]) with
              | some e => pure (.failed e true)
              | none => relayStream rest true []

def emptyStream : Thrown :=
  .router
    { code := .invalid_response, message := "provider produced a stream with no content",
      detail := [("reason", .str "empty_response")] }

def idleTimeout : RouterError :=
  { code := .provider_unavailable, message := "upstream stalled (idle timeout)",
    detail := [("reason", .str "stream_idle_timeout")] }

/-- The `try` block of a hop. -/
def streamTry (route : RouteDecision) (lastErr : Option RouterError) (previousModel : String) :
    Generator HopEnd := do
  inGenerator (enterHop route lastErr previousModel)
  let c ← Code.read
  let chunks ← inGenerator (op (.openStream c route (hopEnvelope route c)))
  match ← relayStream cfg chunks false [] with
  | .finished false => pure (.failed emptyStream false)
  | .finished true => do
      inGenerator (op (.breakerRecord route.provider.id true))
      pure (.finished true)
  | .failed err contentSeen => pure (.failed err contentSeen)

/-- An invalid response of a stream is audited as an empty one. -/
def auditIfInvalid (route : RouteDecision) (rerr : RouterError) : Stage Unit :=
  if rerr.code = .invalid_response then
    auditRejected route.model.canonicalId .empty_response none
  else pure ()

/-- The `catch` block of a hop: the error to go on to the next hop with, unless it is final. -/
def streamCatch (route : RouteDecision) (err : Thrown) (contentSeen : Bool) :
    Stage RouterError := do
  let idleFired ← op .idleFired
  let rerr := if idleFired then idleTimeout else toRouterError err
  let aborted ← op .signalAborted
  noteFailure route (aborted || idleFired)
  auditIfInvalid route rerr
  if contentSeen || aborted || idleFired then throw (.router rerr) else pure rerr

/-- One admitted hop: `none` when its whole stream was relayed, else the error to go on with. -/
def streamHop (route : RouteDecision) (lastErr : Option RouterError) (previousModel : String) :
    Generator (Option RouterError) := do
  inGenerator (op .openHop)
  let caught : Generator (Option RouterError) := do
    match ← streamTry cfg route lastErr previousModel with
    | .finished _ => pure none
    | .failed err contentSeen => do
        pure (some (← inGenerator (streamCatch route err contentSeen)))
  caught.ensure (inGenerator (do
    op .closeHop
    op (.shedRelease route.provider.id)))

/-- The loop over the candidates: `none` when a hop was relayed, else the last error. -/
def streamLoop (effective : EffectivePolicy) :
    List Uuid → Option RouterError → String → Generator (Option (Option RouterError))
  | [], lastErr, _ => pure (some lastErr)
  | modelId :: ids, lastErr, previousModel => do
      if ← inGenerator (op .signalAborted) then pure (some lastErr)
      else match effective.modelsById.get modelId with
      | none => streamLoop effective ids lastErr previousModel
      | some model => do
          match ← inGenerator (admitHop deps false model lastErr previousModel) with
          | .skipped rerr => streamLoop effective ids (some rerr) model.canonicalId
          | .admitted route => do
              match ← streamHop cfg route lastErr previousModel with
              | none => pure none
              | some rerr => streamLoop effective ids (some rerr) model.canonicalId

def executeResilientStream : Generator Unit := do
  let effective ← inGenerator requireEffective
  inGenerator (op (.openSignal cfg.totalTimeoutMs))
  let body : Generator Unit := do
    let ids ← inGenerator (do Code.ofExcept (candidateModels effective (← ctx).envelope))
    match ← streamLoop deps cfg effective ids none "" with
    | none => pure ()
    | some lastErr => do
        if ← inGenerator (op .timedOut) then
          throw (.thrown (.router (totalTimeout "upstream timed out before first token")))
        else throw (.thrown (.router (lastErr.getD noUsableModel)))
  body.ensure (inGenerator (op .disposeSignal))

end VibeRouter
