import VibeRouter.Ledger.Budget
import VibeRouter.Net.Ssrf
import VibeRouter.Policy.Cache

/-! # The stages before the adapter

`auth → resolveTaskClass → policy → budget → scrub → route`, each over the context of one
request.  A stage that refuses the request throws a `RouterError`; what it has written to the
context before stays written. -/

namespace VibeRouter

open Effects Async

variable [Platform] (deps : PipelineDeps)

/-- The context. -/
def ctx : Stage PipelineCtx := Code.read

/-- Assign to the context. -/
def assign (f : PipelineCtx → PipelineCtx) : Stage Unit := Code.write f

def orderingViolation {α : Type} : Stage α := fail .unknown "pipeline ordering violation"

/-- `ctx.auth`, which the stages after the first rely on. -/
def requireAuth : Stage AuthContext := do
  match (← ctx).auth with
  | some auth => pure auth
  | none => orderingViolation

/-- `ctx.effective`, which the stages after the policy rely on. -/
def requireEffective : Stage EffectivePolicy := do
  match (← ctx).effective with
  | some effective => pure effective
  | none => orderingViolation

/-- `deps.audit?.({ ...base, event, detail })` with the fields most entries carry. -/
def auditRequest (auth : AuthContext) (effective : EffectivePolicy) (event : AuditEvent) :
    Stage Unit := do
  let c ← ctx
  op (.audit
    { firmId := auth.firmId, app := auth.app, taskClass := some effective.taskClass.key,
      requestHash := some c.requestHash, event })

/-! ### auth -/

def hashToken (token : String) : Digest := Platform.sha256 (js token)

/-- A text that is present and not empty. -/
def truthyText (t : Option String) : Option String := t.filter (· ≠ "")

def authenticateAppToken (bearerToken : Option String) : Stage AuthContext := do
  match truthyText bearerToken with
  | none => fail .auth_error "missing bearer token"
  | some token => do
      let presented := hashToken token
      match ← await (op (.findAppToken presented)) with
      | none => fail .auth_error "invalid app token"
      | some row =>
          if presented ≠ row.tokenHash then fail .auth_error "invalid app token"
          else if !row.scopes.contains "chat" then
            fail .auth_error "token lacks required scope: chat"
          else do
            op (.touchAppToken row.id)
            pure { firmId := row.firmId, app := row.app, scopes := row.scopes, tokenId := row.id }

/-- The rate limits of an app token and of the user behind it. -/
def checkRateLimits (auth : AuthContext) : Stage Unit := do
  let tokenWait ← op (.take .perToken ("t:" ++ auth.tokenId.text))
  let userWait ← match truthyText (← ctx).envelope.metadata.userId with
    | some userId => op (.take .perUser ("u:" ++ auth.firmId.text ++ ":" ++ userId))
    | none => pure none
  let wait := max (tokenWait.getD 0) (userWait.getD 0)
  if 0 < wait then do
    let key := if tokenWait.getD 0 ≠ 0 then "app_token" else "user"
    op (.audit { firmId := auth.firmId, app := auth.app, event := .rate_limited key wait })
    throw (.router
      { code := .rate_limited, message := "rate limit exceeded",
        retryAfterSeconds := some (wait : ℚ) })
  else pure ()

def stageAuth (bearerToken : Option String) : Stage Unit := do
  let auth ← authenticateAppToken bearerToken
  assign fun c => { c with
    auth := some auth
    envelope := { c.envelope with metadata := { c.envelope.metadata with app := auth.app } } }
  if deps.rateLimits then checkRateLimits auth else pure ()

/-! ### resolve task class -/

def stageResolveTaskClass : Stage Unit := do
  if (← ctx).envelope.taskClass = "" then
    fail .policy_blocked "missing X-Vibe-Task-Class header"
  else pure ()

/-! ### policy -/

def stagePolicy : Stage Unit := do
  let auth ← requireAuth
  let firmSettings ← PolicyEngine.firmSettings deps.engineTtlMs auth.firmId
  let effective ← PolicyEngine.resolve deps.engineTtlMs auth.firmId (← ctx).envelope.taskClass
    firmSettings
  assign fun c => { c with taskClass := some effective.taskClass }
  Code.ofExcept (checkRole effective (← ctx).envelope.metadata.userRole)
  assign fun c => { c with envelope := applyLimits effective c.envelope, effective := some effective }

/-! ### budget -/

/-- `Math.round((spentCents / limitCents) * 100)`. -/
def spentPercent (check : BudgetScopeCheck) : ℤ :=
  (200 * check.spentCents + check.limitCents * MICRO) / (2 * (check.limitCents * MICRO))

/-- Audit the soft warnings one by one. -/
def auditWarnings (auth : AuthContext) (effective : EffectivePolicy) :
    List BudgetScopeCheck → Stage Unit
  | [] => pure ()
  | w :: ws => do
      let period := currentPeriod (← dateNow)
      op (.audit
        { firmId := auth.firmId, app := auth.app, taskClass := some effective.taskClass.key,
          event := .budget_soft_warning w period })
      auditWarnings auth effective ws

def stageBudget : Stage Unit := do
  let auth ← requireAuth
  let effective ← requireEffective
  let c ← ctx
  let softWarnings ← checkBudgets
    { firmId := auth.firmId, app := auth.app, userId := c.envelope.metadata.userId,
      taskClassId := effective.taskClass.id, settings := effective.firmSettings.budgets,
      policyMonthlyCents := effective.policy.monthlyBudgetCents }
  if 0 < softWarnings.length then do
    assign fun c => { c with budgetWarnings := softWarnings.map fun w =>
      w.scope.text ++ ":" ++ toString (spentPercent w) ++ "%" }
    auditWarnings auth effective softWarnings
  else pure ()

/-! ### scrub -/

/-- Does the fallback chain name a model outside the local tier? -/
def cloudInChain (effective : EffectivePolicy) : Bool :=
  effective.policy.fallbackChain.any fun id =>
    match effective.modelsById.get id with
    | some m => !isLocalKind m.providerKind
    | none => false

/-- What the scrub stage throws for an exception that is not its own. -/
def scrubberFailure : Thrown :=
  .router
    { code := .scrubber_blocked, message := "scrubber error — cloud egress blocked",
      detail := [("reason", .str "scrubber_failure")] }

/-- The model the scrub decision is about.  Selection is all of the `try` block that can throw;
its own failures keep their code. -/
def scrubTarget (effective : EffectivePolicy) (env : AIRequest) : Except Thrown ModelRow :=
  match selectModel effective env with
  | .ok model => .ok model
  | .error (.router e) => .error (.router e)
  | .error _ => .error scrubberFailure

/-- Scan or redact, and note the outcome in the context. -/
def runScrubber (mode : ScrubberMode) (cloudPrimary : Bool) : Stage ScrubReport := do
  let c ← ctx
  if mode = .redact then do
    let result := redactEnvelope c.envelope
    if 0 < result.2.total then
      assign fun c =>
        let c := { c with scrubbed := some ⟨mode, result.2.detail⟩ }
        if cloudPrimary then { c with envelope := result.1 }
        else { c with cloudEnvelope := some result.1 }
    else pure ()
    pure result.2
  else do
    let report := scanEnvelope c.envelope
    if 0 < report.total then assign fun c => { c with scrubbed := some ⟨mode, report.detail⟩ }
    else pure ()
    pure report

/-- What follows from a report that is not empty. -/
def actOnReport (auth : AuthContext) (effective : EffectivePolicy) (mode : ScrubberMode)
    (cloudPrimary : Bool) (counts : List (String × ℕ)) : Stage Unit :=
  match mode with
  | .block =>
      if !cloudPrimary then assign fun c => { c with cloudBlockedCounts := some counts }
      else do
        auditRequest auth effective (.blocked_scrubber counts)
        fail .scrubber_blocked "request contains protected data" [("matches", .counts counts)]
  | .redact => auditRequest auth effective (.scrubber_redacted counts !cloudPrimary)
  | .warn => auditRequest auth effective (.scrubber_warning counts !cloudPrimary)

def stageScrub : Stage Unit := do
  let effective ← requireEffective
  let auth ← requireAuth
  let mode := effective.firmSettings.scrubber_mode.getD .redact
  let model ← Code.ofExcept (scrubTarget effective (← ctx).envelope)
  let cloudPrimary := !isLocalKind model.providerKind
  if !cloudPrimary && !cloudInChain effective then pure ()
  else do
    let report ← runScrubber mode cloudPrimary
    if report.total = 0 then pure ()
    else actOnReport auth effective mode cloudPrimary report.detail

/-! ### route -/

/-- The bar on cloud hops of a request with protected data; it is audited once. -/
def barCloudHop (auth : AuthContext) (effective : EffectivePolicy) (model : ModelRow) :
    Stage Unit := do
  let c ← ctx
  match c.cloudBlockedCounts with
  | none => pure ()
  | some counts =>
      if isLocalKind model.providerKind then pure ()
      else do
        if c.cloudBlockAudited then pure ()
        else do
          assign fun c => { c with cloudBlockAudited := true }
          auditRequest auth effective (.blocked_scrubber counts)
        fail .scrubber_blocked "request contains protected data — cloud fallback barred"
          [("matches", .counts counts)]

/-- The gates a provider row must pass. -/
def checkProvider (effective : EffectivePolicy) (model : ModelRow) (row : Option ProviderRow) :
    Except Thrown ProviderRow :=
  match row with
  | none => routerError .provider_unavailable
      ("no " ++ model.providerKind.text ++ " provider configured")
  | some provider =>
      if effective.firmSettings.banned_provider_kinds.contains provider.kind.text then
        routerError .policy_blocked
          ("provider kind " ++ provider.kind.text ++ " is banned by firm policy")
      else if deps.ssrfDenyPrivateCloud ∧ !(checkBaseUrl provider.kind provider.baseUrl).ok then
        routerError .policy_blocked ("provider base_url rejected: " ++
          ((checkBaseUrl provider.kind provider.baseUrl).reason.getD "undefined"))
      else .ok provider

def adapterFor (provider : ProviderRow) : Except Thrown GatewayAdapter :=
  match deps.adapters provider.kind with
  | some adapter => .ok adapter
  | none => routerError .provider_unavailable ("no adapter for kind " ++ provider.kind.text)

/-- The decrypted key of a provider that needs one. -/
def resolveApiKey (provider : ProviderRow) : Stage (Option String) :=
  match provider.authType with
  | .none => pure none
  | .api_key => do
      let apiKey ← if deps.getApiKey then await (op (.getApiKey provider.id)) else pure none
      match truthyText apiKey with
      | some key => pure (some key)
      | none =>
          fail .provider_unavailable ("no active credential for provider " ++ provider.label)

/-- `thinking_budget` is passed on unless it is zero. -/
def executeContext (effective : EffectivePolicy) (model : ModelRow) (provider : ProviderRow)
    (apiKey : Option String) : ExecuteContext :=
  let req := classRequires effective.taskClass
  { providerId := provider.id, model := model.canonicalId, baseUrl := provider.baseUrl, apiKey,
    modelMapping := provider.modelMapping, promptCaching := req.caching,
    thinkingBudget := req.thinking_budget.filter (· ≠ 0) }

/-- The route for one candidate model; every check is made again for every hop. -/
def routeForModel (model : ModelRow) : Stage RouteDecision := do
  let auth ← requireAuth
  let effective ← requireEffective
  let violation ← Code.ofExcept
    (modelViolation model effective (requiredCapabilities effective (← ctx).envelope))
  match violation with
  | some v => fail v.code v.reason
  | none => do
      barCloudHop auth effective model
      let row ← PolicyEngine.providerFor deps.engineTtlMs auth.firmId model.providerKind
      let provider ← Code.ofExcept (checkProvider deps effective model row)
      let adapter ← Code.ofExcept (adapterFor deps provider)
      let apiKey ← resolveApiKey deps provider
      pure { provider, model, adapter,
             executeCtx := executeContext effective model provider apiKey }

/-- Audit a substitute for the default model. -/
def auditUpgrade (auth : AuthContext) (effective : EffectivePolicy)
    (upgrade : Option CapabilityUpgrade) : Stage Unit :=
  match upgrade with
  | some up => auditRequest auth effective (.capability_upgrade up)
  | none => pure ()

/-- A primary that cannot be routed is left to the fallback chain when there is one. -/
def routePrimary (model : ModelRow) : Stage Unit := do
  match ← (routeForModel deps model).outcome with
  | .ok route => assign fun c => { c with route := some route }
  | .error err =>
      let rerr := toRouterError err
      if deps.resilience.isNone then throw (.router rerr)
      else assign fun c => { c with routeError := some rerr }

def stageRoute : Stage Unit := do
  let effective ← requireEffective
  let auth ← requireAuth
  let (model, upgrade) ← Code.ofExcept (selectModelWith effective (← ctx).envelope)
  auditUpgrade auth effective upgrade
  routePrimary deps model

end VibeRouter
