import Mathlib.Data.List.Lex
import VibeRouter.Catalog.Service
import VibeRouter.Db.Admin
import VibeRouter.Policy.Engine

/-! # Saving policies

`savePolicy` gates a policy and then stores it; `importPolicies` stores the task classes of an
export and then saves its policies, one after the other.  Each gate is judged on the rows as they
are when its policy is saved. -/

namespace VibeRouter

open Effects Admin

/-! ### The gate -/

/-- `if (req[key])`. -/
def ClassContract.wants (tc : ClassContract) (key : CapabilityKey) : Bool :=
  match tc.requires.field key.text with
  | some value => value.truthy
  | none => false

/-- Why a model may not serve a class. -/
def configTimeViolation (model : ModelRecord) (tc : ClassContract) : Option String :=
  if tc.sensitivity = .local_only ∧ !isLocalKind model.providerKind then
    some (model.canonicalId ++ ": local_only class requires a local model (model is " ++
      model.providerKind.text ++ ")")
  else
    let needs := ([.tools, .json_schema, .vision] : List CapabilityKey).filter tc.wants
    let missing := needs.filter fun n => !effectiveCapabilities model.toModelRow n
    if missing = [] then none
    else some (model.canonicalId ++ ": missing capability " ++
      ", ".intercalate (missing.map CapabilityKey.text))

structure SavePolicyInput where
  firmId : Uuid
  taskClassKey : String
  defaultModelCanonicalId : String
  allowedModelCanonicalIds : List String := []
  fallbackChainCanonicalIds : List String := []
  maxTokensOverride : Option ℤ := none
  temperatureMin : Option ℚ := none
  temperatureMax : Option ℚ := none
  monthlyBudgetCents : Option ℤ := none
  enabled : Bool := true
  acknowledgedModels : List String := []
  acknowledgedVia : String := "console"

namespace SavePolicyInput

def canonicalIds (input : SavePolicyInput) : List String :=
  input.defaultModelCanonicalId ::
    (input.allowedModelCanonicalIds ++ input.fallbackChainCanonicalIds)

end SavePolicyInput

/-- `new Map(rows.map((m) => [m.canonicalId, m]))`. -/
abbrev Catalog : Type := JsMap String ModelRecord

def catalogOf (rows : List ModelRecord) : Catalog := .ofList (rows.map fun m => (m.canonicalId, m))

/-- What is wrong with one model of a policy. -/
def modelProblems (byCanonical : Catalog) (tc : ClassContract) (acknowledged : List String)
    (id : String) : List String :=
  match byCanonical.get id with
  | none => [id ++ ": not in catalog"]
  | some model =>
      (configTimeViolation model tc).toList ++
        (if model.thirdPartyHosted ∧ id ∉ acknowledged then
          [id ++ ": third-party hosted — " ++
            model.retentionNote.getD "retention terms are the upstream vendor’s" ++
            " (acknowledge it in acknowledgedModels to bind)"]
        else [])

def policyProblems (byCanonical : Catalog) (tc : ClassContract) (acknowledged : List String)
    (input : SavePolicyInput) : List String :=
  (uniq input.canonicalIds).flatMap (modelProblems byCanonical tc acknowledged)

/-! ### The values of a row -/

/-- The third-party-hosted models of a policy. -/
def boundFlagged (byCanonical : Catalog) (input : SavePolicyInput) : List String :=
  (uniq input.canonicalIds).filter fun id => match byCanonical.get id with
    | some model => model.thirdPartyHosted
    | none => false

/-- Those of them that are acknowledged, in the order of their code units. -/
def acknowledgedNow (byCanonical : Catalog) (previous : List String) (input : SavePolicyInput) :
    List String :=
  ((boundFlagged byCanonical input).filter fun id =>
    id ∈ previous ++ input.acknowledgedModels).insertionSort fun a b => js a ≤ js b

def newlyAcknowledged (byCanonical : Catalog) (previous : List String) (input : SavePolicyInput) :
    List String :=
  (acknowledgedNow byCanonical previous input).filter fun id => id ∉ previous

/-- `byCanonical.get(c)!.id`. -/
def idsOf (byCanonical : Catalog) (canonicalIds : List String) : List Uuid :=
  canonicalIds.filterMap fun id => (byCanonical.get id).map fun m => m.id

/-- The values a save stores, for a default model that is in the catalog. -/
def savedValues (byCanonical : Catalog) (defaultModel : ModelRecord)
    (existing : Option PolicyRecord) (now : ℕ) (input : SavePolicyInput) : PolicyValues :=
  let previous := (existing.map fun row => row.acknowledgedModels).getD []
  { defaultModelId := defaultModel.id
    allowedModelIds := idsOf byCanonical input.allowedModelCanonicalIds
    fallbackChain := idsOf byCanonical input.fallbackChainCanonicalIds
    maxTokensOverride := input.maxTokensOverride
    temperatureMin := input.temperatureMin
    temperatureMax := input.temperatureMax
    monthlyBudgetCents := input.monthlyBudgetCents
    enabled := input.enabled
    acknowledgedModels := acknowledgedNow byCanonical previous input
    acknowledgedAt :=
      if newlyAcknowledged byCanonical previous input ≠ [] then some now
      else if acknowledgedNow byCanonical previous input ≠ [] then
        some ((existing.bind fun row => row.acknowledgedAt).getD now)
      else none }

/-! ### The audit entry -/

def jsonText (s : String) : Json := .str (js s)

/-- The entry of a save. -/
def savedEntry (byCanonical : Catalog) (tc : TaskClassRecord) (existing : Option PolicyRecord)
    (id : Uuid) (values : PolicyValues) (input : SavePolicyInput) : ConfigChange :=
  let previous := (existing.map fun row => row.acknowledgedModels).getD []
  let newly := newlyAcknowledged byCanonical previous input
  { firmId := input.firmId
    taskClass := some tc.key
    detail := .obj
      ([(js "entity", jsonText "policy"), (js "entityId", jsonText id.text),
        (js "action", jsonText (if existing.isSome then "update" else "create"))] ++
      (match existing with
        | some row => [(js "before", .obj
            [(js "defaultModelId", jsonText row.defaultModelId.text),
             (js "enabled", .bool row.enabled),
             (js "maxTokensOverride", match row.maxTokensOverride with
               | some n => .num n
               | none => .null)])]
        | none => []) ++
      [(js "after", .obj
        ([(js "defaultModel", jsonText input.defaultModelCanonicalId),
          (js "allowed", jsonText (",".intercalate input.allowedModelCanonicalIds)),
          (js "fallback", jsonText (",".intercalate input.fallbackChainCanonicalIds)),
          (js "enabled", .bool values.enabled)] ++
        (if boundFlagged byCanonical input ≠ [] then
          [(js "acknowledgedThirdParty", jsonText (",".intercalate values.acknowledgedModels))]
        else []) ++
        (if newly ≠ [] then
          [(js "newlyAcknowledged", jsonText (",".intercalate newly)),
           (js "acknowledgedVia", jsonText input.acknowledgedVia)]
        else [])))]) }

/-! ### Saving -/

/-- Store the values of a policy; the id of its row. -/
def storePolicy (firmId taskClassId : Uuid) (existing : Option PolicyRecord)
    (values : PolicyValues) : Admin Uuid :=
  match existing with
  | some row => do
      op (.updatePolicy row.id values)
      pure row.id
  | none => op (.insertPolicy firmId taskClassId values)

/-- A gate with problems refuses the policy. -/
def policyRejected {α : Type} (problems : List String) : Admin α :=
  fail .invalid_request ("policy rejected: " ++ "; ".intercalate problems)
    [("problems", .texts problems)]

/-- `savePolicy` once it has read its rows. -/
def saveGated (input : SavePolicyInput) (tc : TaskClassRecord) (byCanonical : Catalog)
    (existing : Option PolicyRecord) : Admin Uuid :=
  let previous := (existing.map fun row => row.acknowledgedModels).getD []
  let problems := policyProblems byCanonical tc.toClassContract
    (previous ++ input.acknowledgedModels) input
  match problems, byCanonical.get input.defaultModelCanonicalId with
  | [], some defaultModel => do
      let values := savedValues byCanonical defaultModel existing (← op .now) input
      let id ← storePolicy input.firmId tc.id existing values
      op (.invalidate (some input.firmId))
      op (.writeAudit (savedEntry byCanonical tc existing id values input))
      pure id
  -- a default model that is not in the catalog is a problem
  | _, _ => policyRejected problems

def savePolicy (input : SavePolicyInput) : Admin Uuid := do
  match ← op (.findTaskClass input.taskClassKey) with
  | none => fail .invalid_request ("unknown task class: " ++ input.taskClassKey)
  | some tc => do
      let byCanonical := catalogOf (← op (.findModels input.canonicalIds))
      let existing ← op (.findPolicy input.firmId tc.id)
      saveGated input tc byCanonical existing

/-! ### Bindings that a save would refuse -/

structure InvalidBinding where
  firmId : Uuid
  policyId : Uuid
  taskClassKey : String
  model : String
  reason : String
deriving DecidableEq

/-- The loop of `findInvalidBindings`. -/
def invalidBindings (modelById : JsMap Uuid ModelRecord) (classById : JsMap Uuid TaskClassRecord)
    (rows : List PolicyRecord) : List InvalidBinding :=
  rows.flatMap fun p => match classById.get p.taskClassId with
    | none => []
    | some tc => (uniq p.boundIds).filterMap fun id => (modelById.get id).bind fun model =>
        (configTimeViolation model tc.toClassContract).map fun reason =>
          ⟨p.firmId, p.id, tc.key, model.canonicalId, reason⟩

def findInvalidBindings : Admin (List InvalidBinding) := do
  let rows ← op .allPolicies
  if rows = [] then pure []
  else do
    let allModels ← op .allModels
    let classes ← op .allTaskClasses
    pure (invalidBindings (.ofList (allModels.map fun m => (m.id, m)))
      (.ofList (classes.map fun c => (c.id, c))) rows)

/-! ### Exporting -/

structure ExportedClass extends ClassContract where
  key : String
  app : String
  description : String
  defaultMaxTokens : ℤ

structure ExportedPolicy where
  taskClassKey : String
  defaultModel : String
  allowedModels : List String
  fallbackChain : List String
  maxTokensOverride : Option ℤ
  temperatureMin : Option ℚ
  temperatureMax : Option ℚ
  monthlyBudgetCents : Option ℤ
  enabled : Bool
  acknowledgedModels : List String := []

structure PolicyExport where
  taskClasses : List ExportedClass
  policies : List ExportedPolicy

def exportedClass (c : TaskClassRecord) : ExportedClass :=
  { c.toClassContract with
    key := c.key, app := c.app, description := c.description, defaultMaxTokens := c.defaultMaxTokens }

def exportedPolicy (modelById : JsMap Uuid String) (key : String) (p : PolicyRecord) :
    ExportedPolicy where
  taskClassKey := key
  defaultModel := (modelById.get p.defaultModelId).getD "unknown"
  allowedModels := p.allowedModelIds.map fun id => (modelById.get id).getD "unknown"
  fallbackChain := p.fallbackChain.map fun id => (modelById.get id).getD "unknown"
  maxTokensOverride := p.maxTokensOverride
  temperatureMin := p.temperatureMin
  temperatureMax := p.temperatureMax
  monthlyBudgetCents := p.monthlyBudgetCents
  enabled := p.enabled
  acknowledgedModels := p.acknowledgedModels

/-- What an export holds of the rows it reads. -/
def exported (classes : List TaskClassRecord) (policyRows : List PolicyRecord)
    (allModels : List ModelRecord) : PolicyExport where
  taskClasses := classes.map exportedClass
  policies := policyRows.filterMap fun p =>
    ((JsMap.ofList (classes.map fun c => (c.id, c.key))).get p.taskClassId).map fun key =>
      exportedPolicy (.ofList (allModels.map fun m => (m.id, m.canonicalId))) key p

def exportPolicies (firmId : Uuid) : Admin PolicyExport := do
  match ← op (.findFirm firmId) with
  | none => fail .invalid_request "firm not found"
  | some _ => do
      let classes ← op .taskClassesByKey
      let policyRows ← op (.firmPolicies firmId)
      let allModels ← op .allModels
      pure (exported classes policyRows allModels)

/-! ### Importing -/

/-- A document as the schema sees it: an export, or the path and the text of its first issue. -/
abbrev ImportDocument : Type := Except (String × String) PolicyExport

/-- How the schema names the type of a value. -/
def schemaTypeOf : Json → String
  | .null => "null"
  | .bool _ => "boolean"
  | .num _ => "number"
  | .str _ => "string"
  | .arr _ => "array"
  | .obj _ => "object"

/-- The issues of the class at the place `i`. -/
def classIssues (c : ExportedClass) (i : ℕ) : List (String × String) :=
  (match c.requires with
    | .obj _ => []
    | other => [("taskClasses." ++ toString i ++ ".requires",
        "Expected object, received " ++ schemaTypeOf other)]) ++
  (if c.defaultMaxTokens ≤ 0 then
    [("taskClasses." ++ toString i ++ ".defaultMaxTokens", "Number must be greater than 0")]
  else [])

/-- The issues of the policy at the place `i`. -/
def policyIssues (p : ExportedPolicy) (i : ℕ) : List (String × String) :=
  match p.maxTokensOverride with
  | none => []
  | some n =>
      if n ≤ 0 then
        [("policies." ++ toString i ++ ".maxTokensOverride", "Number must be greater than 0")]
      else []

/-- What `exportSchema` makes of the text of an export: the ranges that the types leave open. -/
def exportSchema (data : PolicyExport) : ImportDocument :=
  match (data.taskClasses.zipIdx.flatMap fun c => classIssues c.1 c.2) ++
      data.policies.zipIdx.flatMap fun p => policyIssues p.1 p.2 with
  | issue :: _ => .error issue
  | [] => .ok data

def Sensitivity.order : Sensitivity → ℕ
  | .local_only => 0
  | .cloud_deidentified => 1
  | .cloud_allowed => 2

/-- An import never relaxes a sensitivity. -/
def tighter (c existing : Sensitivity) : Sensitivity :=
  if c.order < existing.order then c else existing

def importTaskClass (c : ExportedClass) : Admin Unit := do
  match ← op (.findTaskClass c.key) with
  | some existing =>
      op (.updateTaskClass existing.id
        { description := some c.description, requires := some c.requires,
          defaultMaxTokens := some c.defaultMaxTokens,
          sensitivity := some (tighter c.sensitivity existing.sensitivity) })
  | none => do
      let _ ← op (.insertTaskClass c.toClassContract c.key c.app c.description c.defaultMaxTokens
        (some "import"))
      pure ()

def importTaskClasses : List ExportedClass → Admin Unit
  | [] => pure ()
  | c :: cs => do
      importTaskClass c
      importTaskClasses cs

def ExportedPolicy.toInput (p : ExportedPolicy) (firmId : Uuid) : SavePolicyInput where
  firmId := firmId
  taskClassKey := p.taskClassKey
  defaultModelCanonicalId := p.defaultModel
  allowedModelCanonicalIds := p.allowedModels
  fallbackChainCanonicalIds := p.fallbackChain
  maxTokensOverride := p.maxTokensOverride
  temperatureMin := p.temperatureMin
  temperatureMax := p.temperatureMax
  monthlyBudgetCents := p.monthlyBudgetCents
  enabled := p.enabled
  acknowledgedModels := p.acknowledgedModels
  acknowledgedVia := "import"

/-- The number of policies saved. -/
def savePolicies (firmId : Uuid) : List ExportedPolicy → Admin ℕ
  | [] => pure 0
  | p :: ps => do
      let _ ← savePolicy (p.toInput firmId)
      let count ← savePolicies firmId ps
      pure (count + 1)

/-- The numbers of classes and policies imported. -/
def importPolicies (firmId : Uuid) (raw : ImportDocument) : Admin (ℕ × ℕ) :=
  match raw with
  | .error (path, message) =>
      fail .invalid_request ("invalid policy export: " ++ path ++ ": " ++ message)
  | .ok data => do
      importTaskClasses data.taskClasses
      let count ← savePolicies firmId data.policies
      op (.invalidate (some firmId))
      pure (data.taskClasses.length, count)

end VibeRouter
