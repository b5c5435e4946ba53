import VibeRouter.Db.Admin

/-! # Rows as requests read them

The rows the administration stores, with the columns and in the types in which a request reads
them. -/

namespace VibeRouter

/-- `Boolean(requires[name])`. -/
def flagOf (requires : Json) (name : String) : Bool :=
  match requires.field name with
  | some value => value.truthy
  | none => false

/-- A number of a JSON object. -/
def numberOf (requires : Json) (name : String) : Option ℚ :=
  match requires.field name with
  | some (.num n) => some n
  | _ => none

/-- `classRequires`. -/
def readRequires (requires : Json) : TaskClassRequires where
  tools := flagOf requires "tools"
  json_schema := flagOf requires "json_schema"
  vision := flagOf requires "vision"
  caching := flagOf requires "caching"
  thinking_budget := (numberOf requires "thinking_budget").map fun n => n.floor.toNat
  cache_ttl_s := numberOf requires "cache_ttl_s"
  cache_cloud := flagOf requires "cache_cloud"

def TaskClassRecord.toRow (tc : TaskClassRecord) : TaskClassRow where
  id := tc.id
  key := tc.key
  app := tc.app
  description := tc.description
  sensitivity := tc.sensitivity
  requires := readRequires tc.requires
  defaultMaxTokens := tc.defaultMaxTokens
  registeredByAppVersion := tc.registeredByAppVersion

def PolicyRecord.toRow (p : PolicyRecord) : PolicyRow where
  id := p.id
  firmId := p.firmId
  taskClassId := p.taskClassId
  defaultModelId := p.defaultModelId
  allowedModelIds := p.allowedModelIds
  fallbackChain := p.fallbackChain
  maxTokensOverride := p.maxTokensOverride
  temperatureMin := p.temperatureMin
  temperatureMax := p.temperatureMax
  monthlyBudgetCents := p.monthlyBudgetCents.map Int.toNat
  enabled := p.enabled
  acknowledgedModels := p.acknowledgedModels

end VibeRouter
