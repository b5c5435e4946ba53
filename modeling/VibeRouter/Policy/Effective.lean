import VibeRouter.Db.Lookups
import VibeRouter.Db.Resolved
import VibeRouter.Gateway.Uses
import VibeRouter.Policy.Cache

/-! # The effective policy of a firm

What `PolicyEngine.resolve` reads when nothing is cached, as a function of the tables. -/

namespace VibeRouter

open Effects Effects.Code Async

namespace AdminDb

variable (db : AdminDb) (firmId : Uuid)

def modelRows (ids : List Uuid) : List ModelRow :=
  (db.models.filter fun row => row.id ∈ ids).map fun row => row.toModelRow

def roleRows (policyId : Uuid) : List RolePolicyRow :=
  db.rolePolicies.filter fun row => row.policyId = policyId

/-- The tables answer what is read of policies. -/
def Answers : (e : Op) → e.Answer → Prop
  | .findTaskClass key, r => r = .ok ((db.findTaskClass key).map TaskClassRecord.toRow)
  | .findPolicy firmId taskClassId, r =>
      r = .ok ((db.findPolicy firmId taskClassId).map PolicyRecord.toRow)
  | .findModels ids, r => r = .ok (db.modelRows ids)
  | .findRolePolicies policyId, r => r = .ok (db.roleRows policyId)
  | _, _ => True

/-- The policy of a firm for a task class, with what it refers to. -/
def effectivePolicy (key : String) (settings : FirmSettings) : Except Thrown EffectivePolicy :=
  match db.findTaskClass key with
  | none => routerError .policy_blocked ("unknown task class: " ++ key)
  | some tc =>
      match db.findPolicy firmId tc.id with
      | none => routerError .policy_blocked ("no enabled policy for task class " ++ key)
      | some policy =>
          if !policy.enabled then
            routerError .policy_blocked ("no enabled policy for task class " ++ key)
          else
            let modelsById := ModelsById.ofRows (db.modelRows (PolicyEngine.wantedIds policy.toRow))
            match h : modelsById.get policy.defaultModelId with
            | none => routerError .policy_blocked "policy default model not found in catalog"
            | some defaultModel => .ok
                { taskClass := tc.toRow, policy := policy.toRow, defaultModel, modelsById,
                  roleRules := .ofList ((db.roleRows policy.id).map fun r => (r.role, r.allowed)),
                  firmSettings := settings, default_known := h }

theorem load_effectivePolicy {S : Type} {A : Op → Prop} (hA : ∀ e, A e) (s : S) (key : String)
    (settings : FirmSettings) :
    (PolicyEngine.load firmId key settings).Meets db.Answers A s
      (fun r _ => r = db.effectivePolicy firmId key settings) := by
  unfold PolicyEngine.load effectivePolicy
  simp only [meets_bind, meets_await, meets_op]
  refine ⟨hA _, fun r hr => ?_⟩
  replace hr : r = .ok ((db.findTaskClass key).map TaskClassRecord.toRow) := hr
  subst hr
  cases db.findTaskClass key with
  | none => rfl
  | some tc =>
      simp only [Option.map_some, meets_bind, meets_await, meets_op]
      refine ⟨hA _, fun r hr => ?_⟩
      replace hr : r = .ok ((db.findPolicy firmId tc.id).map PolicyRecord.toRow) := hr
      subst hr
      cases db.findPolicy firmId tc.id with
      | none => rfl
      | some policy =>
          simp only [Option.map_some]
          have henabled : policy.toRow.enabled = policy.enabled := rfl
          rw [henabled]
          split
          · rfl
          · simp only [meets_bind, meets_await, meets_op]
            refine ⟨hA _, fun r hr => ?_⟩
            replace hr : r = .ok (db.modelRows (PolicyEngine.wantedIds policy.toRow)) := hr
            subst hr
            dsimp only
            split
            · next hnone =>
                simp only [meets_fail]
                split
                · rfl
                · next m hm => exact absurd (hnone.symm.trans hm) (Option.some_ne_none m).symm
            · next m hm =>
                simp only [meets_bind, meets_await, meets_op, meets_pure]
                refine ⟨hA _, fun r hr => ?_⟩
                replace hr : r = .ok (db.roleRows policy.id) := hr
                subst hr
                dsimp only
                split
                · next hnone => exact absurd (hm.symm.trans hnone) (Option.some_ne_none m)
                · next m' hm' =>
                    obtain rfl : m = m' := Option.some.inj (hm.symm.trans hm')
                    rfl

end AdminDb

/-! ### Decisions -/

/-- Two policies are for one task class, with the same models, limits and settings; they may belong
to different firms and have different role rules. -/
structure SameRules (a b : EffectivePolicy) : Prop where
  taskClass : b.taskClass = a.taskClass
  defaultModelId : b.policy.defaultModelId = a.policy.defaultModelId
  allowedModelIds : b.policy.allowedModelIds = a.policy.allowedModelIds
  fallbackChain : b.policy.fallbackChain = a.policy.fallbackChain
  maxTokensOverride : b.policy.maxTokensOverride = a.policy.maxTokensOverride
  temperatureMin : b.policy.temperatureMin = a.policy.temperatureMin
  temperatureMax : b.policy.temperatureMax = a.policy.temperatureMax
  monthlyBudgetCents : b.policy.monthlyBudgetCents = a.policy.monthlyBudgetCents
  defaultModel : b.defaultModel = a.defaultModel
  modelsById : b.modelsById = a.modelsById
  firmSettings : b.firmSettings = a.firmSettings

namespace SameRules

variable {a b : EffectivePolicy} (h : SameRules a b)

include h

theorem applyLimits (env : AIRequest) : applyLimits b env = applyLimits a env := by
  unfold VibeRouter.applyLimits limitTemperature
  rw [h.maxTokensOverride, h.taskClass, h.temperatureMin, h.temperatureMax, h.firmSettings]

theorem checkRole (hroles : b.roleRules = a.roleRules) (role : Option UserRole) :
    checkRole b role = checkRole a role := by
  unfold VibeRouter.checkRole
  rw [hroles, h.taskClass]

theorem requiredCapabilities (env : AIRequest) :
    requiredCapabilities b env = requiredCapabilities a env := by
  unfold VibeRouter.requiredCapabilities
  rw [h.taskClass]

theorem orderedCandidates : orderedCandidates b = orderedCandidates a := by
  unfold VibeRouter.orderedCandidates
  rw [h.allowedModelIds, h.fallbackChain, h.defaultModelId, h.modelsById]

variable [Platform]

theorem modelViolation (model : ModelRow) (needs : List CapabilityKey) :
    modelViolation model b needs = modelViolation model a needs := by
  unfold VibeRouter.modelViolation
  rw [h.taskClass, h.firmSettings]

theorem requestedModel (env : AIRequest) (needs : List CapabilityKey) :
    requestedModel b env needs = requestedModel a env needs := by
  unfold VibeRouter.requestedModel
  simp only [h.defaultModelId, h.allowedModelIds, h.modelsById, h.modelViolation]

theorem upgradeFrom (needs : List CapabilityKey) (violation : Violation) (ms : List ModelRow)
    (unsatisfiable : List CapabilityKey) :
    upgradeFrom b needs violation ms unsatisfiable =
      upgradeFrom a needs violation ms unsatisfiable := by
  induction ms generalizing unsatisfiable with
  | nil =>
      unfold VibeRouter.upgradeFrom noVisionProvider
      rw [h.taskClass]
  | cons m ms ih =>
      unfold VibeRouter.upgradeFrom
      rw [h.modelViolation, h.defaultModel]
      simp only [ih]

theorem selectModel (env : AIRequest) : selectModel b env = selectModel a env := by
  unfold VibeRouter.selectModel selectModelWith
  simp only [h.requiredCapabilities, h.requestedModel, h.modelViolation, h.defaultModel,
    h.orderedCandidates, h.upgradeFrom]

end SameRules

end VibeRouter
