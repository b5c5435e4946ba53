import VibeRouter.Catalog.Refresh

/-! # Edits by operators

Operators add models of their own, edit what the feed does not manage, override capabilities and
retire models.  An edit is checked as a whole before anything is written. -/

namespace VibeRouter

open Effects

namespace Catalog

/-! ### Schemas -/

def capabilitiesSchema : Zod.Schema Capabilities := Zod.object fun members => do
  let boolean := fun name => Zod.member (Zod.optional Zod.boolean) name members
  let caps : Capabilities := {
    tools := ← boolean "tools"
    json_schema := ← boolean "json_schema"
    vision := ← boolean "vision"
    caching := ← boolean "caching"
    reasoning := ← boolean "reasoning" }
  Zod.only ["tools", "json_schema", "vision", "caching", "reasoning"] members
  return caps

/-- `z.number().nonnegative()`. -/
def nonnegative : Zod.Schema ℚ :=
  Zod.checked Zod.number
    [fun n => if 0 ≤ n then none else some "Number must be greater than or equal to 0"]

structure PricingInput where
  inputPerMtok : ℚ
  outputPerMtok : ℚ
  cacheReadPerMtok : Option ℚ
  cacheWritePerMtok : Option ℚ

def pricingInputSchema : Zod.Schema PricingInput := Zod.object fun members => do
  return {
    inputPerMtok := ← Zod.member nonnegative "inputPerMtok" members
    outputPerMtok := ← Zod.member nonnegative "outputPerMtok" members
    cacheReadPerMtok := ← Zod.member (Zod.optional nonnegative) "cacheReadPerMtok" members
    cacheWritePerMtok := ← Zod.member (Zod.optional nonnegative) "cacheWritePerMtok" members }

/-- `z.string().min(1).max(200)`. -/
def shortText : Zod.Schema JsString :=
  Zod.checked Zod.string
    [fun s => if 1 ≤ s.length then none else some "String must contain at least 1 character(s)",
      fun s => if s.length ≤ 200 then none else some "String must contain at most 200 character(s)"]

/-- `[a-z0-9_-]`. -/
def isFamilyChar (c : ℕ) : Bool :=
  JsString.isDigit c || (97 ≤ c && c ≤ 122) || c == 95 || c == 45

/-- A family and a native name around the only slash. -/
def isCanonicalId (s : JsString) : Bool :=
  match s.splitOn 47 with
  | [family, native] => family ≠ [] && family.all isFamilyChar && native ≠ [] && native.all isIdChar
  | _ => false

structure CustomModelInput where
  canonicalId : JsString
  providerKind : ProviderKind
  displayName : JsString
  contextWindow : ℤ
  maxOutput : Option ℤ
  capabilities : Capabilities
  pricing : Option PricingInput

def customModelSchema : Zod.Schema CustomModelInput := Zod.object fun members => do
  return {
    canonicalId := ← Zod.member (Zod.checked Zod.string
      [fun s => if isCanonicalId s then none
        else some "expected family/native-name, e.g. ollama/qwen3:14b"]) "canonicalId" members
    providerKind := ← Zod.member
      (Zod.enumeration (ProviderKind.all.map fun kind => (kind.text, kind))) "providerKind" members
    displayName := ← Zod.member shortText "displayName" members
    contextWindow := ← Zod.member Zod.positiveInt "contextWindow" members
    maxOutput := ← Zod.member (Zod.optional Zod.positiveInt) "maxOutput" members
    capabilities := (← Zod.member (Zod.optional capabilitiesSchema) "capabilities" members).getD {}
    pricing := ← Zod.member (Zod.optional pricingInputSchema) "pricing" members }

/-- `null` or what a schema accepts. -/
def nullable {α : Type} (s : Zod.Schema α) : Zod.Schema (Option α)
  | some .null => .ok none
  | v => (s v).map some

structure UpdateModelInput where
  displayName : Option JsString
  contextWindow : Option ℤ
  maxOutput : Option (Option ℤ)
  capabilities : Option Capabilities
  pricing : Option PricingInput

def updateModelSchema : Zod.Schema UpdateModelInput := Zod.object fun members => do
  let input : UpdateModelInput := {
    displayName := ← Zod.member (Zod.optional shortText) "displayName" members
    contextWindow := ← Zod.member (Zod.optional Zod.positiveInt) "contextWindow" members
    maxOutput := ← Zod.member (Zod.optional (nullable Zod.positiveInt)) "maxOutput" members
    capabilities := ← Zod.member (Zod.optional capabilitiesSchema) "capabilities" members
    pricing := ← Zod.member (Zod.optional pricingInputSchema) "pricing" members }
  Zod.only ["displayName", "contextWindow", "maxOutput", "capabilities", "pricing"] members
  return input

/-! ### Edits -/

section
variable {S : Type}

/-- `throw new RouterError('invalid_request', …)`. -/
def reject {α : Type} (message : String) : Job S α :=
  throw (.router { code := .invalid_request, message })

/-- The input as the schema reads it, or the complaint about its first issue. -/
def accepted {α : Type} (what : String) (r : Except Zod.Issue α) : Job S α :=
  match r with
  | .ok a => pure a
  | .error issue =>
      reject ("invalid " ++ what ++ ": " ++ ".".intercalate issue.path ++ ": " ++ issue.message)

variable [Formats]

def PricingInput.toPricing (p : PricingInput) : Pricing where
  inputPerMtok := some (Formats.text p.inputPerMtok)
  outputPerMtok := some (Formats.text p.outputPerMtok)
  cacheReadPerMtok := p.cacheReadPerMtok.map Formats.text
  cacheWritePerMtok := p.cacheWritePerMtok.map Formats.text

/-- Append a price from now on. -/
def insertPricing (modelId : Uuid) (pricing : Option PricingInput) : Job S Unit :=
  Job.whenSome pricing fun p => do
    let now ← Job.op .now
    Job.await (Job.op (.insertPrice ⟨modelId, now, p.toPricing⟩))

def CustomModelInput.values (m : CustomModelInput) : ModelValues where
  canonicalId := m.canonicalId
  providerKind := .kind m.providerKind
  displayName := m.displayName
  contextWindow := m.contextWindow
  maxOutput := m.maxOutput.map Int.cast
  capabilities := m.capabilities
  source := .custom

/-- The id of the new row. -/
def createCustomModel (input : Option Json) : Job S Uuid := do
  let m ← accepted "model" (customModelSchema input)
  let existing ← Job.await (Job.op (.findByCanonicalId m.canonicalId))
  if existing.isSome then reject ("model already exists: " ++ Utf8.text m.canonicalId)
  else do
    let id ← Job.await (Job.op (.insertModel m.values))
    insertPricing id m.pricing
    pure id

/-- The columns an edit sets. -/
def UpdateModelInput.set (patch : UpdateModelInput) : ModelSet where
  displayName := patch.displayName
  contextWindow := patch.contextWindow.map Int.cast
  maxOutput := patch.maxOutput.map fun m => m.map Int.cast
  capabilityOverrides := patch.capabilities

def UpdateModelInput.touchesBase (patch : UpdateModelInput) : Bool :=
  patch.displayName.isSome || patch.contextWindow.isSome || patch.maxOutput.isSome ||
    patch.pricing.isSome

def updateModel (modelId : Uuid) (input : Option Json) : Job S CatalogModel := do
  let patch ← accepted "edit" (updateModelSchema input)
  let model ← Job.await (Job.op (.findById modelId))
  match model with
  | none => reject "model not found"
  | some model =>
      if patch.touchesBase ∧ model.source = .synced then
        reject ("synced models are feed-managed; only capability overrides can be edited " ++
          "(they survive re-sync)")
      else do
        Job.when (patch.set ≠ {}) (Job.await (Job.op (.updateModel modelId patch.set)))
        insertPricing modelId patch.pricing
        let updated ← Job.await (Job.op (.findById modelId))
        match updated with
        | none => throw (.error "model vanished during update")
        | some row => pure row

def setCapabilityOverrides (modelId : Uuid) (overrides : Option Json) : Job S Unit :=
  match capabilitiesSchema overrides with
  | .error _ => reject "invalid capability overrides"
  | .ok caps => Job.await (Job.op (.updateModel modelId { capabilityOverrides := some caps }))

/-- The route of a probe: what its results come to, when they are to be applied, becomes the overrides
of the model as it was read. -/
def probeModel (modelId : Uuid) (apply : Bool) (firmId : Uuid) : Job S Capabilities := do
  let model ← Job.await (Job.op (.findById modelId))
  match model with
  | none => reject "model not found"
  | some model => do
      let results ← Job.await (Job.op (.probe model))
      let overrides :=
        if apply then overridesFromProbes model.capabilityOverrides results model.providerKind
        else model.capabilityOverrides
      Job.when apply
        (Job.await (Job.op (.updateModel model.id { capabilityOverrides := some overrides })))
      auditQuietly "model_capabilities_probed" firmId
      pure overrides

inductive Retired
  | deleted | sunset
deriving DecidableEq

/-- The policies to be searched for a model. -/
def policiesToSearch (referencing : Option PolicyRecord) : Job S (List PolicyRecord) :=
  match referencing with
  | some p => pure [p]
  | none => Job.await (Job.op .findPolicies)

/-- A model that a policy binds is not deleted. -/
def retireCustomModel (modelId : Uuid) : Job S Retired := do
  let model ← Job.await (Job.op (.findById modelId))
  match model with
  | none => reject "model not found"
  | some model =>
      if model.source ≠ .custom then
        reject "synced models are managed by sync; set overrides instead"
      else do
        let referencing ← Job.await (Job.op (.findPolicyByDefault modelId))
        let all ← policiesToSearch referencing
        let referenced := referencing.isSome ||
          all.any fun p => p.allowedModelIds.contains modelId || p.fallbackChain.contains modelId
        if referenced then do
          Job.await (Job.op (.updateModel modelId { status := some .sunset }))
          pure .sunset
        else do
          Job.await (Job.op (.deleteModel modelId))
          pure .deleted

end

end Catalog

end VibeRouter
