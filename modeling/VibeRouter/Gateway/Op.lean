import VibeRouter.Gateway.Context
import VibeRouter.Lib.Code

/-! # Operations

What the code of a request asks of its surroundings: the clock, the database, the objects that
requests share in memory (policy cache, breaker, semaphore, response cache, limiters), the
abort signals, the adapters and the client.  Each is one constructor of `Op`, and `Op.Answer`
is what it answers.  An operation that may reject answers an `Except`.

A streaming adapter answers `openStream` with the chunks it would deliver; each `pull` then
delivers the next of them, or ends the stream, unless it rejects.  The two adapter calls carry
the context of the request they are made for, so that a statement about them can refer to it. -/

namespace VibeRouter

open Effects

/-- An entry of a cache of the policy engine or of the ledger. -/
structure Cached (α : Type) where
  value : α
  expires : ℕ

/-- The two rate limiters. -/
inductive Limiter
  | perToken | perUser
deriving DecidableEq, Repr

inductive Op : Type
  | now
  | random
  -- app tokens
  | findAppToken (tokenHash : Digest)
  | touchAppToken (id : Uuid)
  | take (limiter : Limiter) (key : String)
  -- policy engine: its caches and what it reads
  | firmCacheGet (firmId : Uuid)
  | firmCacheSet (firmId : Uuid) (entry : Cached FirmSettings)
  | providerCacheGet (key : String)
  | providerCacheSet (key : String) (entry : Cached (Option ProviderRow))
  | cacheGet (key : String)
  | cacheSet (key : String) (entry : Cached EffectivePolicy)
  | findFirm (firmId : Uuid)
  | findProvider (firmId : Uuid) (kind : ProviderKind)
  | findTaskClass (key : String)
  | findPolicy (firmId taskClassId : Uuid)
  | findModels (ids : List Uuid)
  | findRolePolicies (policyId : Uuid)
  -- budgets
  | findBudget (scope : BudgetScope) (scopeRef : String) (period : Period)
  | sumLedger (firmId taskClassId : Uuid) (since : ℕ)
  -- providers
  | getApiKey (providerId : Uuid)
  | execute (c : PipelineCtx) (route : RouteDecision) (env : AIRequest)
  | openStream (c : PipelineCtx) (route : RouteDecision) (env : AIRequest)
  | pull
  | closeStream
  | recordHealth (route : RouteDecision) (firmId : Uuid) (ok : Bool)
  -- abort signals and timers
  | openSignal (totalMs : ℕ)
  | signalAborted
  | timedOut
  | clearTotalTimeout
  | disposeSignal
  | clientAborted
  | openHop
  | armIdle (ms : ℕ)
  | idleFired
  | closeHop
  | sleep (ms : ℚ)
  -- breaker and semaphore
  | breakerAllow (providerId : Uuid)
  | breakerRecord (providerId : Uuid) (ok : Bool)
  | shedAcquire (providerId : Uuid)
  | shedRelease (providerId : Uuid)
  -- response cache
  | responseGet (key : String)
  | responseSet (key : String) (response : AIResponse) (ttlSeconds : ℚ)
  -- ledger
  | pricingCacheGet (modelId : Uuid)
  | pricingCacheSet (modelId : Uuid) (entry : Cached (Option ModelPricingRow))
  | pricingAt (modelId : Uuid) (at_ : ℕ)
  | insertUsage (values : UsageLedgerValues)
  | incrementBudget (scope : BudgetScope) (scopeRef : String) (period : Period) (amount : ℤ)
  -- audit
  | audit (entry : AuditEntry)
  -- the client
  | writeHead (requestId : String) (warnings : List String)
  | writeChunk (requestId model : String) (chunk : StreamChunk) (first : Bool)
  | writeError (error : RouterError)
  | writeDone
  | endReply
  | sendResponse (requestId : String) (response : AIResponse)
  | sendError (error : RouterError)

namespace Op

/-- The answer of an operation. -/
@[reducible] def Answer : Op → Type
  | now => ℕ
  | random => ℚ
  | findAppToken _ => Except Thrown (Option AppTokenRow)
  | take _ _ => Option ℕ
  | firmCacheGet _ => Option (Cached FirmSettings)
  | providerCacheGet _ => Option (Cached (Option ProviderRow))
  | cacheGet _ => Option (Cached EffectivePolicy)
  | findFirm _ => Except Thrown (Option FirmRow)
  | findProvider _ _ => Except Thrown (Option ProviderRow)
  | findTaskClass _ => Except Thrown (Option TaskClassRow)
  | findPolicy _ _ => Except Thrown (Option PolicyRow)
  | findModels _ => Except Thrown (List ModelRow)
  | findRolePolicies _ => Except Thrown (List RolePolicyRow)
  | findBudget _ _ _ => Except Thrown (Option ℤ)
  | sumLedger _ _ _ => Except Thrown ℤ
  | getApiKey _ => Except Thrown (Option String)
  | execute _ _ _ => Except Thrown AIResponse
  | openStream _ _ _ => List StreamChunk
  | pull => Except Thrown Unit
  | closeStream => Except Thrown Unit
  | signalAborted => Bool
  | timedOut => Bool
  | clientAborted => Bool
  | idleFired => Bool
  | sleep _ => Bool
  | breakerAllow _ => Bool
  | shedAcquire _ => Bool
  | responseGet _ => Option AIResponse
  | pricingCacheGet _ => Option (Cached (Option ModelPricingRow))
  | pricingAt _ _ => Except Thrown (Option ModelPricingRow)
  | insertUsage _ => Except Thrown Bool
  | incrementBudget _ _ _ _ => Except Thrown Unit
  | _ => Unit

/-- The parts of the surroundings. -/
inductive Part
  | clock | tokens | limiter | engine | budgets | vault | adapter | health | signal | breaker
  | shed | responses | prices | ledger | audit | client
deriving DecidableEq

/-- The part an operation concerns. -/
def part : Op → Part
  | now | random => .clock
  | findAppToken _ | touchAppToken _ => .tokens
  | take _ _ => .limiter
  | firmCacheGet _ | firmCacheSet _ _ | providerCacheGet _ | providerCacheSet _ _ | cacheGet _
  | cacheSet _ _ | findFirm _ | findProvider _ _ | findTaskClass _ | findPolicy _ _
  | findModels _ | findRolePolicies _ => .engine
  | findBudget _ _ _ | sumLedger _ _ _ => .budgets
  | getApiKey _ => .vault
  | execute _ _ _ | openStream _ _ _ | pull | closeStream => .adapter
  | recordHealth _ _ _ => .health
  | openSignal _ | signalAborted | timedOut | clearTotalTimeout | disposeSignal | clientAborted
  | openHop | armIdle _ | idleFired | closeHop | sleep _ => .signal
  | breakerAllow _ | breakerRecord _ _ => .breaker
  | shedAcquire _ | shedRelease _ => .shed
  | responseGet _ | responseSet _ _ _ => .responses
  | pricingCacheGet _ | pricingCacheSet _ _ | pricingAt _ _ => .prices
  | insertUsage _ | incrementBudget _ _ _ _ => .ledger
  | audit _ => .audit
  | writeHead _ _ | writeChunk _ _ _ _ | writeError _ | writeDone | endReply
  | sendResponse _ _ | sendError _ => .client

end Op

/-- The body of an asynchronous function over an object of type `S`. -/
abbrev Async (S α : Type) : Type := Code Op Op.Answer S Thrown α

/-- The body of a function over the context of a request. -/
abbrev Stage (α : Type) : Type := Async PipelineCtx α

namespace Async

variable {S α : Type}

/-- Perform an operation that does not reject. -/
def op (e : Op) : Async S e.Answer := Code.perform e

/-- `Date.now()`. -/
def dateNow : Async S ℕ := op .now

/-- `await` a result that may be a rejection. -/
def await (c : Async S (Except Thrown α)) : Async S α := c >>= Code.ofExcept

/-- `throw new RouterError(code, message, { detail })`. -/
def fail (code : ErrorCode) (message : String) (detail : Detail := []) : Async S α :=
  throw (.router { code, message, detail })

end Async

/-- What the database says of the rows a query returns: they satisfy its condition. -/
def Op.Lawful : (e : Op) → e.Answer → Prop
  | .findAppToken h, r => ∀ row, r = .ok (some row) → row.tokenHash = h ∧ row.revokedAt = none
  | .findFirm i, r => ∀ row, r = .ok (some row) → row.id = i
  | .findProvider f k, r => ∀ row, r = .ok (some row) →
      row.firmId = f ∧ row.kind = k ∧ row.deletedAt = none
  | .findTaskClass k, r => ∀ row, r = .ok (some row) → row.key = k
  | .findPolicy f t, r => ∀ row, r = .ok (some row) → row.firmId = f ∧ row.taskClassId = t
  | .findModels is, r => ∀ rows, r = .ok rows → ∀ row ∈ rows, row.id ∈ is
  | .findRolePolicies p, r => ∀ rows, r = .ok rows → ∀ row ∈ rows, row.policyId = p
  | .random, r => let x : ℚ := r; 0 ≤ x ∧ x < 1
  | _, _ => True

/-- The answers of surroundings in which nothing is found and nothing goes wrong but for the
adapters, which have nothing to say. -/
def Op.calm : (e : Op) → e.Answer
  | .now => (0 : ℕ)
  | .random => (0 : ℚ)
  | .findAppToken _ => .ok none
  | .take _ _ => none
  | .firmCacheGet _ => none
  | .providerCacheGet _ => none
  | .cacheGet _ => none
  | .findFirm _ => .ok none
  | .findProvider _ _ => .ok none
  | .findTaskClass _ => .ok none
  | .findPolicy _ _ => .ok none
  | .findModels _ => .ok []
  | .findRolePolicies _ => .ok []
  | .findBudget _ _ _ => .ok none
  | .sumLedger _ _ _ => .ok (0 : ℤ)
  | .getApiKey _ => .ok none
  | .execute _ _ _ => .error (.error "no answer")
  | .openStream _ _ _ => []
  | .pull => .ok ()
  | .closeStream => .ok ()
  | .signalAborted => false
  | .timedOut => false
  | .clientAborted => false
  | .idleFired => false
  | .sleep _ => true
  | .breakerAllow _ => true
  | .shedAcquire _ => true
  | .responseGet _ => none
  | .pricingCacheGet _ => none
  | .pricingAt _ _ => .ok none
  | .insertUsage _ => .ok true
  | .incrementBudget _ _ _ _ => .ok ()
  | .touchAppToken _ | .firmCacheSet _ _ | .providerCacheSet _ _ | .cacheSet _ _
  | .recordHealth _ _ _ | .openSignal _ | .clearTotalTimeout | .disposeSignal | .openHop
  | .armIdle _ | .closeHop | .breakerRecord _ _ | .shedRelease _ | .responseSet _ _ _
  | .pricingCacheSet _ _ | .audit _ | .writeHead _ _ | .writeChunk _ _ _ _ | .writeError _
  | .writeDone | .endReply | .sendResponse _ _ | .sendError _ => ()

theorem Op.lawful_calm (e : Op) : e.Lawful e.calm := by
  cases e <;> simp [Op.Lawful, Op.calm]

end VibeRouter
