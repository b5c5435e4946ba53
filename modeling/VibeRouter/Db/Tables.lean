import VibeRouter.Gateway.Op

/-! # The configuration tables

The tables a request only reads, with the queries the program makes of them.  `Tables.answer`
answers those queries and leaves the rest of the surroundings calm. -/

namespace VibeRouter

structure Tables where
  appTokens : List AppTokenRow := []
  firms : List FirmRow := []
  providers : List ProviderRow := []
  providerCredentials : List (Uuid × String) := []
  taskClasses : List TaskClassRow := []
  policies : List PolicyRow := []
  models : List ModelRow := []
  rolePolicies : List RolePolicyRow := []
  modelPricing : List ModelPricingRow := []

namespace Tables

variable (t : Tables)

def findAppToken (tokenHash : Digest) : Option AppTokenRow :=
  t.appTokens.find? fun r => r.tokenHash = tokenHash ∧ r.revokedAt = none

def findFirm (id : Uuid) : Option FirmRow := t.firms.find? fun r => r.id = id

def findProvider (firmId : Uuid) (kind : ProviderKind) : Option ProviderRow :=
  t.providers.find? fun r => r.firmId = firmId ∧ r.kind = kind ∧ r.deletedAt = none

def findTaskClass (key : String) : Option TaskClassRow := t.taskClasses.find? fun r => r.key = key

def findPolicy (firmId taskClassId : Uuid) : Option PolicyRow :=
  t.policies.find? fun r => r.firmId = firmId ∧ r.taskClassId = taskClassId

def findModels (ids : List Uuid) : List ModelRow := t.models.filter fun r => r.id ∈ ids

def findRolePolicies (policyId : Uuid) : List RolePolicyRow :=
  t.rolePolicies.filter fun r => r.policyId = policyId

/-- The later of two prices. -/
def later (best : Option ModelPricingRow) (row : ModelPricingRow) : Option ModelPricingRow :=
  match best with
  | none => some row
  | some b => if b.effectiveFrom < row.effectiveFrom then some row else some b

def pricingAt (modelId : Uuid) (ts : ℕ) : Option ModelPricingRow :=
  (t.modelPricing.filter fun r => r.modelId = modelId ∧ r.effectiveFrom ≤ ts).foldl later none

/-- Surroundings that answer the queries and are calm otherwise. -/
def answer : (e : Op) → e.Answer
  | .findAppToken tokenHash => .ok (t.findAppToken tokenHash)
  | .findFirm id => .ok (t.findFirm id)
  | .findProvider firmId kind => .ok (t.findProvider firmId kind)
  | .findTaskClass key => .ok (t.findTaskClass key)
  | .findPolicy firmId taskClassId => .ok (t.findPolicy firmId taskClassId)
  | .findModels ids => .ok (t.findModels ids)
  | .findRolePolicies policyId => .ok (t.findRolePolicies policyId)
  | .getApiKey providerId => .ok (t.providerCredentials.lookup providerId)
  | .pricingAt modelId ts => .ok (t.pricingAt modelId ts)
  | e => e.calm

/-- The rows a query returns satisfy its condition. -/
theorem lawful_answer (e : Op) : e.Lawful (t.answer e) := by
  cases e with
  | findAppToken h =>
      intro row hrow
      simpa using List.find?_some (Except.ok.inj hrow)
  | findFirm id =>
      intro row hrow
      simpa using List.find?_some (Except.ok.inj hrow)
  | findProvider firmId kind =>
      intro row hrow
      simpa using List.find?_some (Except.ok.inj hrow)
  | findTaskClass key =>
      intro row hrow
      simpa using List.find?_some (Except.ok.inj hrow)
  | findPolicy firmId taskClassId =>
      intro row hrow
      simpa using List.find?_some (Except.ok.inj hrow)
  | findModels ids =>
      rintro rows ⟨⟩ row hrow
      simpa using (List.mem_filter.1 hrow).2
  | findRolePolicies policyId =>
      rintro rows ⟨⟩ row hrow
      simpa using (List.mem_filter.1 hrow).2
  | random => exact Op.lawful_calm .random
  | _ => trivial

end Tables

/-! ### A small installation

One firm with one app token, one task class whose policy serves a cloud model and falls back to
a local one. -/

namespace Sample

def firmId : Uuid := ⟨"11111111-1111-4111-8111-111111111111", by decide⟩
def tokenId : Uuid := ⟨"22222222-2222-4222-8222-222222222222", by decide⟩
def taskClassId : Uuid := ⟨"33333333-3333-4333-8333-333333333333", by decide⟩
def policyId : Uuid := ⟨"44444444-4444-4444-8444-444444444444", by decide⟩
def cloudModelId : Uuid := ⟨"55555555-5555-4555-8555-555555555555", by decide⟩
def localModelId : Uuid := ⟨"66666666-6666-4666-8666-666666666666", by decide⟩
def cloudProviderId : Uuid := ⟨"77777777-7777-4777-8777-777777777777", by decide⟩
def localProviderId : Uuid := ⟨"88888888-8888-4888-8888-888888888888", by decide⟩

/-- The token, and its digest. -/
def token : String := "vibe-token"
def tokenHash : Digest :=
  ⟨"b9aeb8a4a813656d62475cf026887934a51373a443bb4ebb51c965b526bbd3be", by decide⟩

def firm : FirmRow := { id := firmId, settings := {} }

def appToken : AppTokenRow :=
  { id := tokenId, firmId, app := "vibe-tb", tokenHash, scopes := ["chat"] }

def taskClass : TaskClassRow :=
  { id := taskClassId, key := "memo", app := "vibe-tb", sensitivity := .cloud_allowed }

def cloudModel : ModelRow :=
  { id := cloudModelId, canonicalId := "claude-sonnet", providerKind := .anthropic }

def localModel : ModelRow :=
  { id := localModelId, canonicalId := "llama", providerKind := .local }

def cloudProvider : ProviderRow :=
  { id := cloudProviderId, firmId, kind := .anthropic, label := "Anthropic",
    baseUrl := "https://api.anthropic.com", authType := .api_key }

def localProvider : ProviderRow :=
  { id := localProviderId, firmId, kind := .local, label := "Ollama",
    baseUrl := "http://ollama:11434", authType := .none }

def policy : PolicyRow :=
  { id := policyId, firmId, taskClassId, defaultModelId := cloudModelId,
    fallbackChain := [localModelId] }

def tables : Tables :=
  { appTokens := [appToken], firms := [firm], providers := [cloudProvider, localProvider],
    providerCredentials := [(cloudProviderId, "sk-key")], taskClasses := [taskClass],
    policies := [policy], models := [cloudModel, localModel] }

/-- All adapters, with the resilient executors. -/
def deps : PipelineDeps :=
  { adapters := fun kind => some ⟨kind⟩
    resilience := some { totalTimeoutMs := 600000, streamIdleTimeoutMs := 60000 } }

/-- The resolved policy with another fallback chain. -/
def effective (fallbackChain : List Uuid) : EffectivePolicy :=
  { taskClass, policy := { policy with fallbackChain }, defaultModel := cloudModel,
    modelsById := .ofRows [cloudModel, localModel], roleRules := .empty, firmSettings := {},
    default_known := rfl }

def auth : AuthContext :=
  { firmId, app := "vibe-tb", scopes := ["chat"], tokenId }

/-- A request of the task class with one message. -/
def request (text : String) : AIRequest :=
  { taskClass := "memo", messages := [{ role := .user, content := .text (js text) }],
    metadata := { app := "" } }

/-- The digests of the sample requests. -/
@[reducible] def platform : Platform :=
  .ofDigests [(js token, tokenHash)]
    ⟨"3fba60c982a74a791fe8334cf1f16cd00a4896d16df844231845be6ab5fcdc9a", by decide⟩

/-- The context of a request that has passed the stages before the adapter. -/
def admitted [Platform] (requestId : String) (fallbackChain : List Uuid) : PipelineCtx :=
  { newPipelineCtx requestId 0 (request "hello") with
    auth := some auth, taskClass := some taskClass, effective := some (effective fallbackChain) }

end Sample

end VibeRouter
