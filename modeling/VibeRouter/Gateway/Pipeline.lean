import VibeRouter.Ledger.Writer
import VibeRouter.Ops.Cache
import VibeRouter.Resilience.Executor

/-! # The pipeline

`stageAdapt` serves a routed request, from the response cache, through the resilient executors
or directly; `runPipeline` runs all stages in order and writes the ledger row of a request that
has ended.  The stream of a streaming request is returned suspended at its first chunk: a
failure before that is an error of the pipeline. -/

namespace VibeRouter

open Effects Async

variable [Platform] (deps : PipelineDeps)

/-! ### The cache key -/

def ToolDef.toJson (t : ToolDef) : Json :=
  .obj ([(js "name", Json.str (js t.name))] ++
    (t.description.map fun d => (js "description", Json.str d)).toList ++
    (t.parameters.map fun p => (js "parameters", p)).toList)

def ToolChoice.toJson : ToolChoice → Json
  | .auto => .str (js "auto")
  | .none => .str (js "none")
  | .required => .str (js "required")
  | .named name => .obj [(js "name", .str (js name))]

def SchemaValidationMode.toJson : SchemaValidationMode → Json
  | .structural => .str (js "structural")
  | .strict => .str (js "strict")

def ResponseFormat.toJson : ResponseFormat → Json
  | .text => .obj [(js "type", .str (js "text"))]
  | .json_object => .obj [(js "type", .str (js "json_object"))]
  | .json_schema name schema strict validation =>
      .obj ([(js "type", Json.str (js "json_schema")), (js "name", Json.str (js name))] ++
        (schema.map fun s => (js "schema", s)).toList ++
        (strict.map fun b => (js "strict", Json.bool b)).toList ++
        (validation.map fun v => (js "validation", v.toJson)).toList)

/-- The request-shaping parameters that are part of the key. -/
def shapingParams (env : AIRequest) : Json :=
  let orNull := fun o : Option Json => o.getD .null
  .arr
    [orNull (env.tools.map fun ts => .arr (ts.map ToolDef.toJson)),
      orNull (env.toolChoice.map ToolChoice.toJson),
      orNull (env.responseFormat.map ResponseFormat.toJson),
      orNull (env.maxTokens.map fun n => .num n),
      orNull (env.temperature.map .num),
      orNull (env.topP.map .num),
      orNull (env.stop.map fun ss => .arr (ss.map .str))]

def paramsDigest (env : AIRequest) : Digest :=
  (Platform.sha256 ((shapingParams env).stringify Platform.numberText)).take 16

/-- `requires` of the task class of a request. -/
def requiresOf (c : PipelineCtx) : TaskClassRequires :=
  match c.effective with
  | some effective => classRequires effective.taskClass
  | none => {}

def cacheTtl (c : PipelineCtx) : ℚ := (requiresOf c).cache_ttl_s.getD 0

def cacheEligible (c : PipelineCtx) : Bool :=
  !c.envelope.stream && deps.responseCache && decide (0 < cacheTtl c)

/-- The key of a route, when its responses may be cached. -/
def keyFor (auth : AuthContext) (c : PipelineCtx) (r : RouteDecision) : Option String :=
  if !cacheEligible deps c then none
  else if !isLocalKind r.model.providerKind && !(requiresOf c).cache_cloud then none
  else some (ResponseCache.key auth.firmId r.model.canonicalId c.requestHash
    (paramsDigest c.envelope))

/-! ### adapt -/

/-- The stream of a request: what is left of its generator. -/
abbrev ResponseStream : Type :=
  GenProg Op Op.Answer Yielded (Except Abrupt Unit × PipelineCtx)

/-- The stream of an adapter that is called directly. -/
def adapterRelay (chunks : List StreamChunk) : Generator Unit := do
  match ← inGenerator (op .pull) with
  | .error e => throw (.thrown e)
  | .ok () => match chunks with
    | [] => pure ()
    | chunk :: rest => do
        match ← yieldChunk chunk with
        | some e => throw (.thrown e)
        | none => adapterRelay rest

def adapterStream (route : RouteDecision) : Generator Unit := do
  let c ← Code.read
  let chunks ← inGenerator (op (.openStream c route (clampToModel c.envelope route.model)))
  adapterRelay chunks

/-- Run a generator to its first chunk; an exception before it is thrown here.  The generator
that wraps it afterwards resumes and returns it as it is. -/
def primeStream (g : Generator Unit) : Stage ResponseStream := fun c =>
  (g c).next.bind fun first => match first with
    | .done (.error (.thrown e), c') => .ret (.error e, c')
    | .done (r, c') => .ret (.ok (.ret (r, c')), c')
    | .yielded y k => .ret (.ok (.call (.yield y) k), y.2)

/-- Serve from the cache; `true` on a hit. -/
def serveCached (cacheKey : Option String) : Stage Bool := do
  match cacheKey with
  | none => pure false
  | some key => do
      match ← op (.responseGet key) with
      | none => pure false
      | some hit => do
          let now ← dateNow
          assign fun c => { c with
            response := some { hit with
              served := { hit.served with latencyMs := (now : ℤ) - c.startedAt } }
            cacheHit := true }
          pure true

/-- The resilient path without streaming. -/
def adaptResilient (cfg : ResilienceConfig) (auth : AuthContext) (cacheKey : Option String) :
    Stage Unit := do
  let res ← executeResilient deps cfg
  assign fun c => { c with response := some res }
  let c ← ctx
  let servedKey := cacheKey.orElse fun _ => c.route.bind (keyFor deps auth c)
  match servedKey with
  | some key => op (.responseSet key res (cacheTtl c))
  | none => pure ()

/-- The direct path without streaming. -/
def adaptDirect (route : RouteDecision) (cacheKey : Option String) : Stage Unit := do
  let c ← ctx
  match ← op (.execute c route (clampToModel c.envelope route.model)) with
  | .ok res => do
      assign fun c => { c with response := some res }
      recordHealth route true
      match cacheKey with
      | some key => op (.responseSet key res (cacheTtl (← ctx)))
      | none => pure ()
  | .error err => do
      recordHealth route false
      throw err

/-- Where a request without a route ends when there is no chain to defer to. -/
def unrouted {α : Type} : Stage α := do
  match (← ctx).routeError with
  | some rerr => throw (.router rerr)
  | none => orderingViolation

def stageAdapt : Stage (Option ResponseStream) := do
  let auth ← requireAuth
  let c ← ctx
  if c.route.isNone ∧ deps.resilience.isNone then unrouted
  else do
    let cacheKey := c.route.bind (keyFor deps auth c)
    if ← serveCached cacheKey then pure none
    else match deps.resilience with
    | some cfg =>
        if c.envelope.stream then do
          pure (some (← primeStream (executeResilientStream deps cfg)))
        else do
          adaptResilient deps cfg auth cacheKey
          pure none
    | none => match c.route with
      | none => unrouted
      | some route =>
          if c.envelope.stream then
            pure (some (adapterStream route c))
          else do
            adaptDirect route cacheKey
            pure none

/-! ### The runner -/

/-- The audit entry of a request that has ended. -/
def terminalEvent (c : PipelineCtx) : Option AuditEvent :=
  match c.error with
  | none => some (.request c.envelope.stream (truthyText c.envelope.modelRequested)
      (c.response.map AIResponse.served))
  | some error =>
      if error.code = .scrubber_blocked then none
      else if error.code = .policy_blocked ∨ error.code = .capability_missing ∨
          error.code = .no_vision_provider then
        some (.blocked_policy error.code (clip 300 error.message))
      else if error.code ∈ RETRYABLE_CODES ∨ error.code = .context_exceeded then
        some (.provider_error error.code
          (match error.detail.lookup "providerStatus" with
            | some (.num n) => some n
            | _ => none)
          (decide (error.code ∈ RETRYABLE_CODES)))
      else none

/-- Terminal audit emission. -/
def emitTerminalAudit : Stage Unit := do
  let c ← ctx
  match c.auth, terminalEvent c with
  | some auth, some event =>
      op (.audit
        { firmId := auth.firmId, app := auth.app, taskClass := c.taskClass.map TaskClassRow.key,
          model := c.route.map fun r => r.model.canonicalId,
          provider := c.route.map fun r => r.provider.label,
          requestHash := some c.requestHash, event })
  | _, _ => pure ()

/-- The stages in order, and the ledger row of a request that does not stream. -/
def stages (bearerToken : Option String) : Stage (Option ResponseStream) := do
  stageAuth deps bearerToken
  stageResolveTaskClass
  stagePolicy deps
  stageBudget
  stageScrub
  stageRoute deps
  let stream ← stageAdapt deps
  if (← ctx).envelope.stream then pure stream
  else do
    DbLedger.write
    emitTerminalAudit
    pure stream

/-- A ledger write whose failure is only logged. -/
def writeLogged : Stage Unit := do
  let _ ← (DbLedger.write).outcome
  pure ()

def runPipeline (bearerToken : Option String) : Stage (Option ResponseStream) :=
  (stages deps bearerToken).handle fun err => do
    let rerr := toRouterError err
    assign fun c => { c with error := some rerr }
    writeLogged
    emitTerminalAudit
    throw (.router rerr)

end VibeRouter
