import VibeRouter.Gateway.Stages
import VibeRouter.Gateway.Uses
import VibeRouter.Policy.Selection
import VibeRouter.Protect.Redaction

/-! # What the stages do

For each stage before the adapter: which parts of the surroundings it uses, and what it makes of
the context. -/

namespace VibeRouter

open Effects Async Code

variable {L : (e : Op) → e.Answer → Prop} {A : Op → Prop} {s : PipelineCtx}

/-! ### The context -/

@[simp] theorem meets_ctx {post : Except Thrown PipelineCtx → PipelineCtx → Prop} :
    ctx.Meets L A s post ↔ post (.ok s) s := Iff.rfl

@[simp] theorem meets_assign (f : PipelineCtx → PipelineCtx)
    {post : Except Thrown Unit → PipelineCtx → Prop} :
    (assign f).Meets L A s post ↔ post (.ok ()) (f s) := Iff.rfl

section
variable {Q : Type} {V : Env Op Op.Answer Q} {ok : Q → Op → Prop} {q : Q}

@[simp] theorem wp_ctx {post : Except Thrown PipelineCtx → PipelineCtx → Q → Prop} :
    ctx.wp V ok post s q ↔ post (.ok s) s q := Iff.rfl

@[simp] theorem wp_assign (f : PipelineCtx → PipelineCtx)
    {post : Except Thrown Unit → PipelineCtx → Q → Prop} :
    (assign f).wp V ok post s q ↔ post (.ok ()) (f s) q := Iff.rfl

end

theorem requireAuth_uses :
    Uses L [] requireAuth s fun r s' => s' = s ∧ ∀ a, r = .ok a → s.auth = some a := by
  simp only [requireAuth, meets_bind, meets_ctx]
  split <;> simp [orderingViolation, *]

theorem requireEffective_uses :
    Uses L [] requireEffective s fun r s' => s' = s ∧ ∀ e, r = .ok e → s.effective = some e := by
  simp only [requireEffective, meets_bind, meets_ctx]
  split <;> simp [orderingViolation, *]

theorem auditRequest_uses (auth : AuthContext) (effective : EffectivePolicy) (event : AuditEvent) :
    Uses L [.audit] (auditRequest auth effective event) s fun r s' => r = .ok () ∧ s' = s := by
  simp [auditRequest, Op.Within, Op.part, Op.WellKeyed]

/-! ### auth -/

/-- The context of an authenticated request. -/
def PipelineCtx.withAuth (c : PipelineCtx) (auth : AuthContext) : PipelineCtx :=
  { c with
    auth := some auth
    envelope := { c.envelope with metadata := { c.envelope.metadata with app := auth.app } } }

theorem authenticateAppToken_uses [Platform] (bearerToken : Option String) :
    Uses L [.tokens] (authenticateAppToken bearerToken) s fun _ s' => s' = s := by
  unfold authenticateAppToken
  split
  · simp
  · simp only [meets_bind, meets_await, meets_op]
    refine ⟨by simp [Op.Within, Op.part, Op.WellKeyed], fun r _ => ?_⟩
    rcases r with e | _ | row
    · trivial
    · trivial
    · dsimp only
      split
      · simp
      · split <;> simp [Op.Within, Op.part, Op.WellKeyed]

theorem checkRateLimits_uses (auth : AuthContext) :
    Uses L [.limiter, .audit] (checkRateLimits auth) s fun _ s' => s' = s := by
  simp only [checkRateLimits, meets_bind, meets_op, meets_ctx]
  refine ⟨by simp [Op.Within, Op.part, Op.WellKeyed], fun tokenWait _ => ?_⟩
  split
  · simp only [meets_bind, meets_op]
    refine ⟨by simp [Op.Within, Op.part, Op.WellKeyed], fun userWait _ => ?_⟩
    split <;> simp [Op.Within, Op.part, Op.WellKeyed]
  · simp only [meets_bind, meets_pure]
    split <;> simp [Op.Within, Op.part, Op.WellKeyed]

theorem stageAuth_uses [Platform] (deps : PipelineDeps) (bearerToken : Option String) :
    Uses L [.tokens, .limiter, .audit] (stageAuth deps bearerToken) s fun r s' =>
      (s' = s ∧ r ≠ .ok ()) ∨ ∃ auth, s' = s.withAuth auth := by
  simp only [stageAuth, meets_bind]
  refine (authenticateAppToken_uses bearerToken).call (by simp) ?_
  rintro (e | auth) s' rfl
  · exact .inl ⟨rfl, by simp⟩
  · simp only [meets_assign]
    split
    · exact (checkRateLimits_uses auth).call (by simp) fun r s' h => .inr ⟨auth, h⟩
    · exact .inr ⟨auth, rfl⟩

theorem stageResolveTaskClass_uses :
    Uses L [] stageResolveTaskClass s fun _ s' => s' = s := by
  simp only [stageResolveTaskClass, meets_bind, meets_ctx]
  split <;> simp

/-! ### policy -/

/-- The context of a request whose policy is resolved. -/
def PipelineCtx.withPolicy (c : PipelineCtx) (effective : EffectivePolicy) : PipelineCtx :=
  { c with
    taskClass := some effective.taskClass
    envelope := applyLimits effective c.envelope
    effective := some effective }

theorem stagePolicy_uses (deps : PipelineDeps) :
    Uses L [.clock, .engine] (stagePolicy deps) s fun r s' =>
      (r ≠ .ok () ∧ ∃ tc, s' = { s with taskClass := tc }) ∨
        ∃ effective, s' = s.withPolicy effective := by
  simp only [stagePolicy, meets_bind]
  refine requireAuth_uses.call (by simp) ?_
  rintro (e | auth) s' ⟨rfl, -⟩
  · exact .inl ⟨by simp, _, rfl⟩
  · refine (PolicyEngine.firmSettings_uses _ _).call (by simp) ?_
    rintro (e | settings) s'' rfl
    · exact .inl ⟨by simp, _, rfl⟩
    · simp only [meets_ctx]
      refine (PolicyEngine.resolve_uses _ _ _ _).call (by simp) ?_
      rintro (e | effective) s''' rfl
      · exact .inl ⟨by simp, _, rfl⟩
      · simp only [meets_assign, meets_ofExcept]
        split
        · exact .inr ⟨effective, rfl⟩
        · exact .inl ⟨by simp, _, rfl⟩

/-! ### budget -/

theorem evaluate_uses (period : Period) (softPct : ℕ) (check : BudgetScopeCheck)
    (warnings : List BudgetScopeCheck) :
    Uses L [] (evaluate period softPct check warnings : Stage _) s fun _ s' => s' = s := by
  unfold evaluate
  split <;> simp

theorem checkScope_uses (period : Period) (softPct : ℕ) (scope : CheckScope) (scopeRef : String)
    (limit : Option ℕ) (spent : Stage ℤ) (warnings : List BudgetScopeCheck)
    (hspent : Uses L [.budgets] spent s fun _ s' => s' = s) :
    Uses L [.budgets] (checkScope period softPct scope scopeRef limit spent warnings) s
      fun _ s' => s' = s := by
  unfold checkScope
  split
  · simp
  · simp only [meets_bind]
    refine hspent.mono ?_
    rintro (e | n) s' rfl
    · rfl
    · exact (evaluate_uses _ _ _ _).weaken (Op.Within.widen (by simp))

theorem spentFor_uses (scope : BudgetScope) (scopeRef : String) (period : Period) :
    Uses L [.budgets] (spentFor scope scopeRef period : Stage ℤ) s fun _ s' => s' = s := by
  simp only [spentFor, meets_bind, meets_await, meets_op]
  refine ⟨by simp [Op.Within, Op.part, Op.WellKeyed], fun r _ => ?_⟩
  cases r <;> simp

theorem sumLedger_uses (firmId taskClassId : Uuid) (since : ℕ) :
    Uses L [.budgets] (await (op (.sumLedger firmId taskClassId since)) : Stage ℤ) s
      fun _ s' => s' = s := by
  simp only [meets_await, meets_op]
  refine ⟨by simp [Op.Within, Op.part, Op.WellKeyed], fun r _ => ?_⟩
  cases r <;> simp

theorem checkBudgets_uses (p : BudgetParams) :
    Uses L [.clock, .budgets] (checkBudgets p : Stage _) s fun _ s' => s' = s := by
  simp only [checkBudgets, meets_bind, meets_dateNow]
  refine ⟨by simp [Op.Within, Op.part, Op.WellKeyed], fun now _ => ?_⟩
  refine (checkScope_uses _ _ _ _ _ _ _ (spentFor_uses _ _ _)).call (by simp) ?_
  rintro (e | ws) s' rfl
  · rfl
  · dsimp only
    refine (checkScope_uses _ _ _ _ _ _ _ (spentFor_uses _ _ _)).call (by simp) ?_
    rintro (e | ws) s' rfl
    · rfl
    · dsimp only
      refine (checkScope_uses _ _ _ _ _ _ _ (spentFor_uses _ _ _)).call (by simp) ?_
      rintro (e | ws) s' rfl
      · rfl
      · exact (checkScope_uses _ _ _ _ _ _ _ (sumLedger_uses _ _ _)).weaken (Op.Within.widen (by simp))

theorem auditWarnings_uses (auth : AuthContext) (effective : EffectivePolicy)
    (ws : List BudgetScopeCheck) :
    Uses L [.clock, .audit] (auditWarnings auth effective ws) s fun r s' => r = .ok () ∧ s' = s := by
  induction ws with
  | nil => exact ⟨rfl, rfl⟩
  | cons w ws ih =>
      simp only [auditWarnings, meets_bind, meets_dateNow, meets_op]
      exact ⟨by simp [Op.Within, Op.part, Op.WellKeyed], fun now _ =>
        ⟨by simp [Op.Within, Op.part, Op.WellKeyed], fun _ _ => ih⟩⟩

theorem stageBudget_uses :
    Uses L [.clock, .budgets, .audit] stageBudget s fun _ s' =>
      ∃ ws, s' = { s with budgetWarnings := ws } := by
  simp only [stageBudget, meets_bind]
  refine requireAuth_uses.call (by simp) ?_
  rintro (e | auth) s' ⟨rfl, -⟩
  · exact ⟨_, rfl⟩
  · refine requireEffective_uses.call (by simp) ?_
    rintro (e | effective) s' ⟨rfl, -⟩
    · exact ⟨_, rfl⟩
    · simp only [meets_ctx]
      refine (checkBudgets_uses _).call (by simp) ?_
      rintro (e | ws) s' rfl
      · exact ⟨_, rfl⟩
      · dsimp only
        split
        · simp only [meets_bind, meets_assign]
          refine (auditWarnings_uses _ _ _).call (by simp) ?_
          rintro r s' ⟨-, rfl⟩
          exact ⟨_, rfl⟩
        · exact ⟨_, rfl⟩

/-! ### route -/

theorem barCloudHop_uses (auth : AuthContext) (effective : EffectivePolicy) (model : ModelRow) :
    Uses L [.audit] (barCloudHop auth effective model) s fun r s' =>
      (∃ b, s' = { s with cloudBlockAudited := b }) ∧
        (r = .ok () → s.cloudBlockedCounts = none ∨ isLocalKind model.providerKind = true) := by
  simp only [barCloudHop, meets_bind, meets_ctx]
  split
  · next h => exact ⟨⟨_, rfl⟩, fun _ => .inl h⟩
  · split
    · next h => exact ⟨⟨_, rfl⟩, fun _ => .inr h⟩
    · split
      · exact ⟨⟨_, rfl⟩, by simp⟩
      · simp only [meets_bind, meets_assign]
        refine (auditRequest_uses _ _ _).mono ?_
        rintro r s' ⟨rfl, rfl⟩
        exact ⟨⟨_, rfl⟩, by simp⟩

theorem auditUpgrade_uses (auth : AuthContext) (effective : EffectivePolicy)
    (upgrade : Option CapabilityUpgrade) :
    Uses L [.audit] (auditUpgrade auth effective upgrade) s fun r s' => r = .ok () ∧ s' = s := by
  cases upgrade with
  | none => exact ⟨rfl, rfl⟩
  | some up => exact auditRequest_uses _ _ _

theorem resolveApiKey_uses (deps : PipelineDeps) (provider : ProviderRow) :
    Uses L [.vault] (resolveApiKey deps provider) s fun _ s' => s' = s := by
  unfold resolveApiKey
  split
  · rfl
  · split
    · simp only [meets_bind, meets_await, meets_op]
      refine ⟨by simp [Op.Within, Op.part, Op.WellKeyed], fun r _ => ?_⟩
      rcases r with e | key
      · trivial
      · dsimp only
        split <;> simp
    · simp only [meets_bind, meets_pure]
      split <;> simp

variable [Platform] (deps : PipelineDeps)

theorem checkProvider_eq_ok {effective : EffectivePolicy} {model : ModelRow}
    {row : Option ProviderRow} {provider : ProviderRow}
    (h : checkProvider deps effective model row = .ok provider) : row = some provider := by
  unfold checkProvider at h
  split at h
  · cases h
  · split at h
    · cases h
    · split at h <;> cases h
      rfl

/-- What holds of a route that was made for a model in the context `c`. -/
structure RouteFor (c : PipelineCtx) (model : ModelRow) (route : RouteDecision) : Prop where
  model_eq : route.model = model
  effective : ∃ effective, c.effective = some effective ∧
    modelViolation model effective (requiredCapabilities effective c.envelope) = .ok none
  unbarred : c.cloudBlockedCounts = none ∨ isLocalKind model.providerKind = true

theorem routeForModel_uses (hL : ∀ e r, L e r → e.Lawful r) (model : ModelRow) :
    Uses L [.clock, .engine, .audit, .vault] (routeForModel deps model) s fun r s' =>
      (∃ b, s' = { s with cloudBlockAudited := b }) ∧ ∀ route, r = .ok route →
        RouteFor s model route ∧
          ((∀ e r, L e r → PolicyEngine.KeyedAnswer e r) →
            route.provider.kind = model.providerKind) := by
  simp only [routeForModel, meets_bind]
  refine requireAuth_uses.call (by simp) ?_
  rintro (e | auth) s' ⟨rfl, -⟩
  · exact ⟨⟨_, rfl⟩, by simp⟩
  refine requireEffective_uses.call (by simp) ?_
  rintro (e | effective) s' ⟨rfl, heff⟩
  · exact ⟨⟨_, rfl⟩, by simp⟩
  simp only [meets_ctx, meets_ofExcept]
  cases hv : modelViolation model effective (requiredCapabilities effective s'.envelope) with
  | error e => exact ⟨⟨_, rfl⟩, by simp⟩
  | ok violation =>
      cases violation with
      | some v => exact ⟨⟨_, rfl⟩, by simp⟩
      | none =>
          simp only [meets_bind]
          refine (barCloudHop_uses auth effective model).call (by simp) ?_
          rintro (e | _) _ ⟨⟨b, rfl⟩, hbar⟩
          · exact ⟨⟨_, rfl⟩, by simp⟩
          refine (PolicyEngine.providerFor_uses hL _ _ _).call (by simp) ?_
          rintro (e | row) _ ⟨rfl, hkind⟩
          · exact ⟨⟨_, rfl⟩, by simp⟩
          simp only [meets_ofExcept]
          cases hp : checkProvider deps effective model row with
          | error e => exact ⟨⟨_, rfl⟩, by simp⟩
          | ok provider =>
              dsimp only
              cases ha : adapterFor deps provider with
              | error e => exact ⟨⟨_, rfl⟩, by simp⟩
              | ok adapter =>
                  simp only [meets_pure]
                  refine (resolveApiKey_uses deps provider).call (by simp) ?_
                  rintro (e | key) _ rfl
                  · exact ⟨⟨_, rfl⟩, by simp⟩
                  refine ⟨⟨_, rfl⟩, ?_⟩
                  rintro route ⟨⟩
                  exact ⟨⟨rfl, ⟨effective, heff effective rfl, hv⟩, hbar rfl⟩, fun hK =>
                    hkind hK provider (by rw [checkProvider_eq_ok deps hp])⟩

/-- What comes of the attempt to route the primary. -/
theorem routePrimary_uses (hL : ∀ e r, L e r → e.Lawful r) (model : ModelRow) :
    Uses L [.clock, .engine, .audit, .vault] (routePrimary deps model) s fun r s' =>
      ∃ b route routeError,
        s' = { s with cloudBlockAudited := b, route, routeError } ∧
        (r = .ok () → deps.resilience = none → ∃ rt, route = some rt ∧ RouteFor s model rt ∧
          ((∀ e r, L e r → PolicyEngine.KeyedAnswer e r) →
            rt.provider.kind = model.providerKind)) := by
  simp only [routePrimary, meets_bind, meets_outcome]
  refine (routeForModel_uses deps hL model).call (by simp) ?_
  rintro (e | route) _ ⟨⟨b, rfl⟩, hroute⟩
  · dsimp only
    split
    · exact ⟨b, _, _, rfl, by simp⟩
    · next hres =>
        refine ⟨b, _, _, rfl, fun _ hnone => ?_⟩
        simp [hnone] at hres
  · exact ⟨b, _, _, rfl, fun _ _ => ⟨route, rfl, hroute route rfl⟩⟩

end VibeRouter
