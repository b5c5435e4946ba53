import VibeRouter.Db.Schema
import VibeRouter.Gateway.Errors
import VibeRouter.Lib.Code
import VibeRouter.Lib.Json

/-! # The tables of the administration

Rows with the columns the administration writes, and the statements of its code.  A statement is
atomic; an id the database generates is not in use. -/

namespace VibeRouter

open Effects

inductive ModelSource
  | synced | custom | provider
deriving DecidableEq, Repr

/-- What a task class asks of the models that serve it. -/
structure ClassContract where
  sensitivity : Sensitivity
  requires : Json

/-- A row of `task_classes`; `requires` as it is stored. -/
structure TaskClassRecord extends ClassContract where
  id : Uuid
  key : String
  app : String
  description : String
  defaultMaxTokens : ℤ
  registeredByAppVersion : Option String

/-- The columns of a row of `task_classes` that an update sets. -/
structure TaskClassSet where
  description : Option String := none
  sensitivity : Option Sensitivity := none
  requires : Option Json := none
  defaultMaxTokens : Option ℤ := none
  registeredByAppVersion : Option String := none

def TaskClassSet.apply (set : TaskClassSet) (row : TaskClassRecord) : TaskClassRecord :=
  { row with
    description := set.description.getD row.description
    sensitivity := set.sensitivity.getD row.sensitivity
    requires := set.requires.getD row.requires
    defaultMaxTokens := set.defaultMaxTokens.getD row.defaultMaxTokens
    registeredByAppVersion := set.registeredByAppVersion.orElse fun _ => row.registeredByAppVersion }

/-- A row of `models`. -/
structure ModelRecord extends ModelRow where
  displayName : String
  contextWindow : ℕ
  deprecationDate : Option String := none
  source : ModelSource
  retentionNote : Option String := none
deriving DecidableEq

/-- The columns of a row of `policies` that a save sets. -/
structure PolicyValues where
  defaultModelId : Uuid
  allowedModelIds : List Uuid
  fallbackChain : List Uuid
  maxTokensOverride : Option ℤ
  temperatureMin : Option ℚ
  temperatureMax : Option ℚ
  monthlyBudgetCents : Option ℤ
  enabled : Bool
  acknowledgedModels : List String
  acknowledgedAt : Option ℕ
deriving DecidableEq

/-- The ids of the models a policy binds. -/
def PolicyValues.boundIds (p : PolicyValues) : List Uuid :=
  p.defaultModelId :: (p.allowedModelIds ++ p.fallbackChain)

structure PolicyRecord extends PolicyValues where
  id : Uuid
  firmId : Uuid
  taskClassId : Uuid
deriving DecidableEq

structure AdminDb where
  taskClasses : List TaskClassRecord
  models : List ModelRecord
  policies : List PolicyRecord
  firms : List FirmRow := []
  rolePolicies : List RolePolicyRow := []

namespace AdminDb

variable (db : AdminDb)

def findTaskClass (key : String) : Option TaskClassRecord :=
  db.taskClasses.find? fun row => row.key = key

def findPolicy (firmId taskClassId : Uuid) : Option PolicyRecord :=
  db.policies.find? fun row => row.firmId = firmId ∧ row.taskClassId = taskClassId

def findModels (canonicalIds : List String) : List ModelRecord :=
  db.models.filter fun row => row.canonicalId ∈ canonicalIds

def findFirm (id : Uuid) : Option FirmRow := db.firms.find? fun row => row.id = id

def firmPolicies (firmId : Uuid) : List PolicyRecord := db.policies.filter fun row => row.firmId = firmId

def updateTaskClass (id : Uuid) (set : TaskClassSet) : AdminDb :=
  { db with taskClasses := db.taskClasses.map fun row => if row.id = id then set.apply row else row }

def insertTaskClass (row : TaskClassRecord) : AdminDb :=
  { db with taskClasses := db.taskClasses ++ [row] }

def updatePolicy (id : Uuid) (values : PolicyValues) : AdminDb :=
  { db with policies := db.policies.map fun row =>
      if row.id = id then { row with toPolicyValues := values } else row }

def insertPolicy (row : PolicyRecord) : AdminDb := { db with policies := db.policies ++ [row] }

/-- The keys of the tables. -/
structure Valid : Prop where
  classIds : (db.taskClasses.map fun row => row.id).Nodup
  classKeys : (db.taskClasses.map fun row => row.key).Nodup
  policyIds : (db.policies.map fun row => row.id).Nodup
  policyKeys : (db.policies.map fun row => (row.firmId, row.taskClassId)).Nodup
  policyClasses : ∀ row ∈ db.policies, ∃ tc ∈ db.taskClasses, tc.id = row.taskClassId

end AdminDb

/-! ### Statements -/

/-- A row of the audit log that the administration writes. -/
structure ConfigChange where
  firmId : Uuid
  taskClass : Option String := none
  detail : Json

inductive AdminOp : Type
  | now
  | findTaskClass (key : String)
  | updateTaskClass (id : Uuid) (set : TaskClassSet)
  | insertTaskClass (contract : ClassContract) (key app description : String)
      (defaultMaxTokens : ℤ) (registeredByAppVersion : Option String)
  | findModels (canonicalIds : List String)
  | findPolicy (firmId taskClassId : Uuid)
  | findFirm (id : Uuid)
  | firmPolicies (firmId : Uuid)
  | taskClassesByKey
  | allTaskClasses
  | allModels
  | allPolicies
  | updatePolicy (id : Uuid) (values : PolicyValues)
  | insertPolicy (firmId taskClassId : Uuid) (values : PolicyValues)
  | invalidate (firmId : Option Uuid)
  | writeAudit (entry : ConfigChange)

namespace AdminOp

/-- An insertion answers the id of the new row. -/
@[reducible] def Answer : AdminOp → Type
  | now => ℕ
  | findTaskClass _ => Option TaskClassRecord
  | insertTaskClass .. => Uuid
  | findModels _ => List ModelRecord
  | findPolicy _ _ => Option PolicyRecord
  | findFirm _ => Option FirmRow
  | firmPolicies _ => List PolicyRecord
  | taskClassesByKey => List TaskClassRecord
  | allTaskClasses => List TaskClassRecord
  | allModels => List ModelRecord
  | allPolicies => List PolicyRecord
  | insertPolicy .. => Uuid
  | _ => Unit

/-- The answers a database may give; how it orders texts is its own matter. -/
def Allows (db : AdminDb) : (e : AdminOp) → e.Answer → Prop
  | findTaskClass key, r => r = db.findTaskClass key
  | insertTaskClass .., r => ∀ row ∈ db.taskClasses, row.id ≠ r
  | findModels ids, r => r = db.findModels ids
  | findPolicy firmId taskClassId, r => r = db.findPolicy firmId taskClassId
  | findFirm id, r => r = db.findFirm id
  | firmPolicies firmId, r => r = db.firmPolicies firmId
  | taskClassesByKey, r => r.Perm db.taskClasses
  | allTaskClasses, r => r = db.taskClasses
  | allModels, r => r = db.models
  | allPolicies, r => r = db.policies
  | insertPolicy .., r => ∀ row ∈ db.policies, row.id ≠ r
  | _, _ => True

/-- The tables after a statement. -/
def apply (db : AdminDb) : (e : AdminOp) → e.Answer → AdminDb
  | updateTaskClass id set, _ => db.updateTaskClass id set
  | insertTaskClass contract key app description defaultMaxTokens version, id =>
      db.insertTaskClass { toClassContract := contract, id, key, app, description,
                           defaultMaxTokens, registeredByAppVersion := version }
  | updatePolicy id values, _ => db.updatePolicy id values
  | insertPolicy firmId taskClassId values, id =>
      db.insertPolicy { toPolicyValues := values, id, firmId, taskClassId }
  | _, _ => db

end AdminOp

/-- Code of the administration. -/
abbrev Admin (α : Type) : Type := Code AdminOp AdminOp.Answer Unit Thrown α

namespace Admin

def op (e : AdminOp) : Admin e.Answer := Code.perform e

def fail {α : Type} (code : ErrorCode) (message : String) (detail : Detail := []) : Admin α :=
  throw (.router { code, message, detail })

end Admin

end VibeRouter
