import VibeRouter.Gateway.Op

/-! # The policy cache

`PolicyEngine`: firm settings, provider rows and resolved policies, each kept in memory for a
short time and read from the database when there is no fresh entry. -/

namespace VibeRouter

open Effects Async

namespace PolicyEngine

variable {S : Type}

/-- The value of an entry that has not expired. -/
def fresh {α : Type} (hit : Option (Cached α)) : Async S (Option α) :=
  match hit with
  | none => pure none
  | some entry => do
      let now ← dateNow
      pure (if now < entry.expires then some entry.value else none)

/-- Settings and provider rows are kept for at most ten seconds. -/
def shortTtl (ttlMs : ℕ) : ℕ := min ttlMs 10000

/-- Firm settings; a firm without a row has none. -/
def firmSettings (ttlMs : ℕ) (firmId : Uuid) : Async S FirmSettings := do
  match ← fresh (← op (.firmCacheGet firmId)) with
  | some settings => pure settings
  | none => do
      let firm ← await (op (.findFirm firmId))
      let settings := (firm.map FirmRow.settings).getD {}
      op (.firmCacheSet firmId ⟨settings, (← dateNow) + shortTtl ttlMs⟩)
      pure settings

def providerKey (firmId : Uuid) (kind : ProviderKind) : String := firmId.text ++ ":" ++ kind.text

/-- The first provider of a kind that is not deleted. -/
def providerFor (ttlMs : ℕ) (firmId : Uuid) (kind : ProviderKind) : Async S (Option ProviderRow) := do
  let key := providerKey firmId kind
  match ← fresh (← op (.providerCacheGet key)) with
  | some row => pure row
  | none => do
      let row ← await (op (.findProvider firmId kind))
      op (.providerCacheSet key ⟨row, (← dateNow) + shortTtl ttlMs⟩)
      pure row

def cacheKey (firmId : Uuid) (taskClassKey : String) : String := firmId.text ++ ":" ++ taskClassKey

/-- The ids of the models a policy names. -/
def wantedIds (policy : PolicyRow) : List Uuid :=
  uniq (policy.defaultModelId :: (policy.allowedModelIds ++ policy.fallbackChain))

/-- Read an effective policy from the database. -/
def load (firmId : Uuid) (taskClassKey : String) (settings : FirmSettings) :
    Async S EffectivePolicy := do
  match ← await (op (.findTaskClass taskClassKey)) with
  | none => fail .policy_blocked ("unknown task class: " ++ taskClassKey)
  | some tc => do
    match ← await (op (.findPolicy firmId tc.id)) with
    | none => fail .policy_blocked ("no enabled policy for task class " ++ taskClassKey)
    | some policy =>
        if !policy.enabled then
          fail .policy_blocked ("no enabled policy for task class " ++ taskClassKey)
        else do
          let rows ← await (op (.findModels (wantedIds policy)))
          let modelsById := ModelsById.ofRows rows
          match h : modelsById.get policy.defaultModelId with
          | none => fail .policy_blocked "policy default model not found in catalog"
          | some defaultModel => do
              let roleRows ← await (op (.findRolePolicies policy.id))
              pure
                { taskClass := tc, policy, defaultModel, modelsById,
                  roleRules := .ofList (roleRows.map fun r => (r.role, r.allowed)),
                  firmSettings := settings, default_known := h }

def resolve (ttlMs : ℕ) (firmId : Uuid) (taskClassKey : String) (settings : FirmSettings) :
    Async S EffectivePolicy := do
  let key := cacheKey firmId taskClassKey
  match ← fresh (← op (.cacheGet key)) with
  | some value => pure value
  | none => do
      let value ← load firmId taskClassKey settings
      op (.cacheSet key ⟨value, (← dateNow) + ttlMs⟩)
      pure value

end PolicyEngine

end VibeRouter
