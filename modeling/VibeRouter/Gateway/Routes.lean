import VibeRouter.Gateway.Pipeline

/-! # The HTTP surface

`chatCompletions` is the handler of one request from its context on: it runs the pipeline,
answers, or relays the stream as server-sent events.  The ledger row of a streamed request is
written when the stream has ended, however it ended. -/

namespace VibeRouter

open Effects Async

variable [Platform] (deps : PipelineDeps)

/-- What the relay keeps while it iterates. -/
structure RelayState where
  first : Bool := true
  finishChunk : Option (FinishReason × Option AIUsage) := none
  streamedChars : ℕ := 0

/-- The relay after a chunk. -/
def RelayState.see (t : RelayState) (chunk : StreamChunk) : RelayState :=
  match chunk with
  | .finish reason usage => { t with first := false, finishChunk := some (reason, usage) }
  | .text_delta delta => { t with first := false, streamedChars := t.streamedChars + delta.length }
  | _ => { t with first := false }

/-- The body of the relay's loop; it leaves the loop once the client is gone. -/
def relayChunk (requestId model : String) (y : Yielded) (t : RelayState) :
    Prog Op Op.Answer (Bool × RelayState) := do
  let aborted : Bool ← Prog.perform Op.clientAborted
  if aborted then pure (false, t)
  else do
    Prog.perform (Op.writeChunk requestId model y.1 t.first)
    pure (true, t.see y.1)

/-- The loop of the relay: how it ended, and what the relay has kept. -/
def relayLoop (requestId model : String) (stream : ResponseStream) :
    Stage (Except Thrown Unit × RelayState) := fun _ =>
  (stream.consume (relayChunk requestId model) {}).bind fun r =>
    let ended : Except Thrown Unit := match r.1.1 with
      | .error (.thrown e) => .error e
      | _ => .ok ()
    .ret (.ok (ended, r.2), r.1.2)

/-- `⌈n / 4⌉`. -/
def quarter (n : ℕ) : ℕ := (n + 3) / 4

/-- `JSON.stringify(ctx.envelope.messages).length`. -/
def messagesLength (env : AIRequest) : ℕ :=
  (Json.stringify Platform.numberText (.arr (env.messages.map AIMessage.toJson))).length

/-- The usage of a stream that ended without reporting it. -/
def estimatedUsage (env : AIRequest) (t : RelayState) : AIUsage :=
  { promptTokens := max 1 (quarter (messagesLength env))
    completionTokens := max (if 0 < t.streamedChars then 1 else 0) (quarter t.streamedChars)
    cachedReadTokens := 0
    cacheWriteTokens := 0
    estimated := true }

/-- The response of a streamed request, for its ledger row. -/
def streamedResponse (c : PipelineCtx) (t : RelayState) (route : RouteDecision) (model : String)
    (now : ℕ) : AIResponse :=
  let served : Served := ⟨model, route.provider.id, (now : ℤ) - c.startedAt⟩
  match t.finishChunk with
  | some (reason, some usage) =>
      { message := { content := [] }, finishReason := reason, usage, served }
  | _ =>
      { message := { content := [] }, finishReason := .error,
        usage := estimatedUsage c.envelope t, served }

/-- The context with that response, when some hop has served the request. -/
def PipelineCtx.streamed (c : PipelineCtx) (t : RelayState) (model : String) (now : ℕ) :
    PipelineCtx :=
  match c.route with
  | some route => { c with response := some (streamedResponse c t route model now) }
  | none => c

def clientAbortedError : RouterError := { code := .unknown, message := "client aborted" }

/-- What the `finally` block of the relay notes in the context. -/
def noteEnd (model : String) (t : RelayState) : Stage Unit := do
  let now ← dateNow
  assign fun c => c.streamed t model now
  let aborted ← op .clientAborted
  if aborted then assign fun c => { c with error := c.error.or (some clientAbortedError) }
  else do
    let c ← ctx
    match c.route with
    | some route => if c.auth.isSome then recordHealth route c.error.isNone else pure ()
    | none => pure ()

/-- The `finally` block of the relay. -/
def finishRelay (model : String) (t : RelayState) : Stage Unit := do
  noteEnd model t
  writeLogged
  emitTerminalAudit
  op .endReply

/-- What the relay writes once its loop has ended; the `catch` block notes the error. -/
def afterLoop : Except Thrown Unit → Stage Unit
  | .ok () => do
      let aborted ← op .clientAborted
      if aborted then pure () else op .writeDone
  | .error e => do
      let rerr := toRouterError e
      op (.writeError rerr)
      op .writeDone
      assign fun c => { c with error := some rerr }

/-- The relay of a stream. -/
def relay (stream : ResponseStream) : Stage Unit := do
  let c ← ctx
  op (.writeHead c.requestId c.budgetWarnings)
  let model := (c.route.map fun r => r.model.canonicalId).getD "unknown"
  let (ended, t) ← relayLoop c.requestId model stream
  afterLoop ended
  finishRelay model t

/-- The answer to a request that did not throw. -/
def respond (stream : Option ResponseStream) : Stage Unit := do
  let c ← ctx
  if !c.envelope.stream then match c.response with
    | none => fail .unknown "pipeline produced no response"
    | some res => op (.sendResponse c.requestId res)
  else match stream with
    | none => fail .unknown "pipeline produced no stream"
    | some stream => relay stream

/-- The handler from the context of the request on. -/
def chatCompletions (bearerToken : Option String) : Stage Unit := do
  let body : Stage Unit := do
    let stream ← runPipeline deps bearerToken
    respond stream
  body.handle fun err => op (.sendError (toRouterError err))

end VibeRouter
