import VibeRouter.Gateway.StageSpecs
import VibeRouter.Gateway.Pipeline
import VibeRouter.Lib.Zod
import VibeRouter.Db.Tables

/-! # The budget precheck

Before it uploads work, an app may ask whether it can afford it.  The precheck resolves the task class as
a request would and checks the same budgets, and it reports an exhausted budget where a request is
rejected.  It goes by the settings of the firm, a request by those that its effective policy carries; the
two are cached for different times.  Where they have the same budgets, the precheck says what a request
in its place would meet (`precheck_agrees`), whatever the surroundings answer. -/

namespace VibeRouter

open Effects Async Code

/-! ### The route -/

structure PrecheckBody where
  task_class : String
  user_id : Option String

def precheckSchema : Zod.Schema PrecheckBody := Zod.object fun members => do
  let task_class ← Zod.member (Zod.checked Zod.string
    [fun s => if 1 ≤ s.length then none else some "String must contain at least 1 character(s)",
      fun s => if s.length ≤ 120 then none
        else some "String must contain at most 120 character(s)"]) "task_class" members
  let user_id ← Zod.member (Zod.optional (Zod.checked Zod.string
    [fun s => if s.length ≤ 200 then none
      else some "String must contain at most 200 character(s)"])) "user_id" members
  Zod.only ["task_class", "user_id"] members
  return { task_class := Utf8.text task_class, user_id := user_id.map Utf8.text }

/-- `ok: true` with the soft warnings, or `ok: false` with the detail of the error. -/
inductive PrecheckReply
  | affordable (softWarnings : List BudgetScopeCheck)
  | exhausted (detail : Detail)

section
variable [Platform] (deps : PipelineDeps)

/-- App-token auth, and the limiter of the token. -/
def authenticateFeed (bearerToken : Option String) : Stage AuthContext := do
  let auth ← authenticateAppToken bearerToken
  if deps.rateLimits then do
    let wait ← op (.take .perToken ("t:" ++ auth.tokenId.text))
    if 0 < wait.getD 0 then
      throw (.router
        { code := .rate_limited, message := "rate limit exceeded"
          retryAfterSeconds := some (wait.getD 0 : ℚ) })
    else pure auth
  else pure auth

/-- The settings of the firm, and the policy it has for the task class. -/
def precheckPolicy (auth : AuthContext) (taskClass : String) :
    Stage (FirmSettings × EffectivePolicy) := do
  let firmSettings ← PolicyEngine.firmSettings deps.engineTtlMs auth.firmId
  let effective ← PolicyEngine.resolve deps.engineTtlMs auth.firmId taskClass firmSettings
  pure (firmSettings, effective)

/-- An exhausted budget is reported; any other error is thrown again. -/
def reportBudgets : Except Thrown (List BudgetScopeCheck) → Except Thrown PrecheckReply
  | .ok softWarnings => .ok (.affordable softWarnings)
  | .error (.router e) =>
      if e.code = .budget_exceeded then .ok (.exhausted e.detail) else .error (.router e)
  | .error err => .error err

def precheckBudgets (auth : AuthContext) (body : PrecheckBody) : Stage PrecheckReply := do
  let (firmSettings, effective) ← precheckPolicy deps auth body.task_class
  let result ← (checkBudgets
    { firmId := auth.firmId, app := auth.app, userId := body.user_id
      taskClassId := effective.taskClass.id, settings := firmSettings.budgets
      policyMonthlyCents := effective.policy.monthlyBudgetCents }).outcome
  Code.ofExcept (reportBudgets result)

/-- `POST /v1/budget/precheck`. -/
def precheck (bearerToken : Option String) (body : Option Json) : Stage PrecheckReply := do
  let auth ← authenticateFeed deps bearerToken
  match precheckSchema body with
  | .error _ => fail .invalid_request "task_class required"
  | .ok parsed => precheckBudgets deps auth parsed

/-- The stages of a request that the precheck stands for. -/
def policyAndBudget : Stage Unit := do
  stagePolicy deps
  stageBudget

end

/-! ### What a request would meet -/

/-- What the precheck says and what becomes of a request in its place. -/
def Foretells (warnings : List String) : Except Thrown PrecheckReply → Except Thrown Unit → PipelineCtx → Prop
  | .ok (.affordable softWarnings), r, c => r = .ok () ∧ c.budgetWarnings =
      if softWarnings = [] then warnings
      else softWarnings.map fun w => w.scope.text ++ ":" ++ toString (spentPercent w) ++ "%"
  | .ok (.exhausted detail), r, _ => ∃ e : RouterError, r = .error (.router e) ∧
      e.code = .budget_exceeded ∧ e.detail = detail
  | .error err, r, _ => r = .error err

section
variable {deps : PipelineDeps} {Q : Type} {h : Q → (e : Op) → e.Answer × Q} {q : Q} {c : PipelineCtx}
  {auth : AuthContext}

theorem aside_await {α S : Type} {code : Async S (Except Thrown α)} (hcode : Aside h code) :
    Aside h (await code) := hcode.bind fun r => aside_ofExcept r

theorem aside_op {S : Type} (e : Op) : Aside h (op e : Async S e.Answer) := aside_perform e

theorem aside_fresh {α S : Type} (hit : Option (Cached α)) :
    Aside h (PolicyEngine.fresh hit : Async S (Option α)) := by
  cases hit with
  | none => exact aside_pure none
  | some entry => exact (aside_op .now).bind fun now => aside_pure _

theorem aside_firmSettings {S : Type} (ttlMs : ℕ) (firmId : Uuid) :
    Aside h (PolicyEngine.firmSettings ttlMs firmId : Async S FirmSettings) := by
  refine (aside_op _).bind fun hit => (aside_fresh hit).bind fun o => ?_
  cases o with
  | some settings => exact aside_pure settings
  | none =>
      refine (aside_await (aside_op _)).bind fun firm => (aside_op .now).bind fun now => ?_
      exact (aside_op _).bind fun _ => aside_pure _

theorem aside_load {S : Type} (firmId : Uuid) (taskClassKey : String) (settings : FirmSettings) :
    Aside h (PolicyEngine.load firmId taskClassKey settings : Async S EffectivePolicy) := by
  refine (aside_await (aside_op _)).bind fun tc => ?_
  cases tc with
  | none => exact aside_throw _
  | some tc =>
      refine (aside_await (aside_op _)).bind fun policy => ?_
      cases policy with
      | none => exact aside_throw _
      | some policy =>
          dsimp only
          split
          · exact aside_throw _
          · refine (aside_await (aside_op _)).bind fun rows => ?_
            split
            · exact aside_throw _
            · exact (aside_await (aside_op _)).bind fun roleRows => aside_pure _

theorem aside_resolve {S : Type} (ttlMs : ℕ) (firmId : Uuid) (taskClassKey : String)
    (settings : FirmSettings) :
    Aside h (PolicyEngine.resolve ttlMs firmId taskClassKey settings : Async S EffectivePolicy) := by
  refine (aside_op _).bind fun hit => (aside_fresh hit).bind fun o => ?_
  cases o with
  | some value => exact aside_pure value
  | none =>
      refine (aside_load _ _ _).bind fun value => (aside_op .now).bind fun now => ?_
      exact (aside_op _).bind fun _ => aside_pure _

theorem aside_checkScope {S : Type} {period : Period} {softPct : ℕ} {scope : CheckScope}
    {scopeRef : String} {limit : Option ℕ} {spent : Async S ℤ} {warnings : List BudgetScopeCheck}
    (hspent : Aside h spent) :
    Aside h (checkScope period softPct scope scopeRef limit spent warnings) := by
  cases limit with
  | none => exact aside_pure _
  | some limitCents =>
      refine hspent.bind fun spentCents => ?_
      unfold evaluate
      split
      · exact aside_throw _
      · exact aside_pure _

theorem aside_spentFor {S : Type} (scope : BudgetScope) (ref : String) (period : Period) :
    Aside h (spentFor scope ref period : Async S ℤ) :=
  (aside_await (aside_op _)).bind fun _ => aside_pure _

theorem aside_checkBudgets {S : Type} (p : BudgetParams) :
    Aside h (checkBudgets p : Async S (List BudgetScopeCheck)) := by
  refine (aside_op .now).bind fun now => (aside_checkScope (aside_spentFor _ _ _)).bind fun ws => ?_
  refine (aside_checkScope (aside_spentFor _ _ _)).bind fun ws => ?_
  refine (aside_checkScope (aside_spentFor _ _ _)).bind fun ws => ?_
  exact aside_checkScope (aside_await (aside_op _))

theorem aside_precheckPolicy (taskClass : String) : Aside h (precheckPolicy deps auth taskClass) :=
  (aside_firmSettings _ _).bind fun _ => (aside_resolve _ _ _ _).bind fun _ => aside_pure _

/-- The policy stage resolves what the precheck resolves. -/
theorem stagePolicy_eq (hauth : c.auth = some auth) : (stagePolicy deps).eval h c q =
    ((precheckPolicy deps auth c.envelope.taskClass) >>= fun x => do
      assign fun c => { c with taskClass := some x.2.taskClass }
      Code.ofExcept (checkRole x.2 (← ctx).envelope.metadata.userRole)
      assign fun c => { c with
        envelope := applyLimits x.2 c.envelope, effective := some x.2 }).eval h c q := by
  unfold stagePolicy precheckPolicy requireAuth ctx
  simp only [eval_bind, eval_read, hauth, eval_pure]
  rw [aside_firmSettings _ _ c c q]
  cases ((PolicyEngine.firmSettings deps.engineTtlMs auth.firmId).eval h c q).1.1 with
  | error err => rfl
  | ok settings =>
      dsimp only
      generalize (PolicyEngine.resolve deps.engineTtlMs auth.firmId c.envelope.taskClass
        settings).eval h c _ = x
      rcases x with ⟨⟨err | effective, c'⟩, q'⟩
      · rfl
      · rfl

/-- The user of a check counts only as a text. -/
theorem checkBudgets_congr {S : Type} {p : BudgetParams} {userId : Option String}
    (huser : p.userId.getD "" = userId.getD "") :
    (checkBudgets p : Async S _) = checkBudgets { p with userId } := by
  unfold checkBudgets
  dsimp only
  rw [huser]

/-- The warnings are audited, and nothing else is done with them. -/
theorem eval_auditWarnings (effective : EffectivePolicy) (ws : List BudgetScopeCheck) :
    ((auditWarnings auth effective ws).eval h c q).1 = (.ok (), c) := by
  induction ws generalizing q with
  | nil => rfl
  | cons w ws ih =>
      unfold auditWarnings dateNow op
      simp only [eval_bind, eval_perform]
      exact ih

/-- The budget stage after the policy stage, when the check of the budgets is known. -/
theorem stageBudget_agrees {effective : EffectivePolicy} (hauth : c.auth = some auth)
    (heffective : c.effective = some effective) {result : Except Thrown (List BudgetScopeCheck)}
    (hcheck : ((checkBudgets
      { firmId := auth.firmId, app := auth.app, userId := c.envelope.metadata.userId
        taskClassId := effective.taskClass.id, settings := effective.firmSettings.budgets
        policyMonthlyCents := effective.policy.monthlyBudgetCents } : Stage _).eval h c q).1 =
      (result, c)) :
    Foretells c.budgetWarnings (reportBudgets result) (stageBudget.eval h c q).1.1
      (stageBudget.eval h c q).1.2 := by
  unfold stageBudget requireAuth requireEffective ctx
  simp only [eval_bind, eval_read, hauth, heffective, eval_pure]
  generalize hrun : (checkBudgets
    { firmId := auth.firmId, app := auth.app, userId := c.envelope.metadata.userId
      taskClassId := effective.taskClass.id, settings := effective.firmSettings.budgets
      policyMonthlyCents := effective.policy.monthlyBudgetCents } : Stage _).eval h c q = x at hcheck
  obtain ⟨⟨result', c'⟩, q'⟩ := x
  obtain ⟨rfl, rfl⟩ := Prod.mk.inj hcheck
  cases result' with
  | error err =>
      dsimp only
      cases err with
      | router e =>
          by_cases hcode : e.code = .budget_exceeded
          · simp only [reportBudgets, if_pos hcode]
            exact ⟨e, rfl, hcode, rfl⟩
          · simp only [reportBudgets, if_neg hcode]
            rfl
      | error message => rfl
      | other => rfl
  | ok ws =>
      dsimp only [reportBudgets]
      by_cases hws : ws = []
      · subst hws
        exact ⟨rfl, rfl⟩
      · have hpos : 0 < ws.length := List.length_pos_iff.2 hws
        rw [if_pos hpos]
        simp only [eval_bind, assign, eval_write]
        rw [Foretells, eval_auditWarnings, if_neg hws]
        exact ⟨rfl, rfl⟩

/-- **The precheck says what a request would meet.**  Where the effective policy carries the budgets of
the firm's settings and the role of the user is allowed: a request in the place of the precheck, with the
same answers, passes the policy and the budgets with the warnings of the precheck if it says so, is
rejected with the detail it reports, and fails as it fails otherwise. -/
theorem precheck_agrees (hauth : c.auth = some auth) {body : PrecheckBody}
    (hclass : c.envelope.taskClass = body.task_class)
    (huser : c.envelope.metadata.userId.getD "" = body.user_id.getD "")
    (hpolicy : ∀ firmSettings effective q',
      (precheckPolicy deps auth body.task_class).eval h c q = ((.ok (firmSettings, effective), c), q') →
      effective.firmSettings.budgets = firmSettings.budgets ∧
        checkRole effective c.envelope.metadata.userRole = .ok ()) :
    Foretells c.budgetWarnings ((precheckBudgets deps auth body).eval h c q).1.1
      ((policyAndBudget deps).eval h c q).1.1 ((policyAndBudget deps).eval h c q).1.2 := by
  unfold precheckBudgets policyAndBudget
  simp only [eval_bind]
  rw [stagePolicy_eq hauth, eval_bind, hclass]
  have hreads : Aside h (precheckPolicy deps auth body.task_class) := aside_precheckPolicy body.task_class
  have haside := hreads c c q
  rw [haside]
  cases hasked : ((precheckPolicy deps auth body.task_class).eval h c q).1.1 with
  | error err => rfl
  | ok x =>
      obtain ⟨firmSettings, effective⟩ := x
      rw [hasked] at haside
      obtain ⟨hbudgets, hrole⟩ := hpolicy _ _ _ haside
      generalize ((precheckPolicy deps auth body.task_class).eval h c q).2 = q'
      simp only [assign, ctx, eval_write, eval_read, eval_ofExcept, eval_bind, eval_outcome, hrole]
      refine stageBudget_agrees (c := { c with
        taskClass := some effective.taskClass, envelope := applyLimits effective c.envelope
        effective := some effective }) hauth rfl ?_
      rw [aside_checkBudgets _ c]
      have hcongr := checkBudgets_congr (S := PipelineCtx) (p :=
        { firmId := auth.firmId, app := auth.app, userId := c.envelope.metadata.userId
          taskClassId := effective.taskClass.id, settings := effective.firmSettings.budgets
          policyMonthlyCents := effective.policy.monthlyBudgetCents }) huser
      rw [← hbudgets]
      exact congrArg (fun check : Stage (List BudgetScopeCheck) => ((check.eval h c q').1.1, _)) hcongr

end

/-! ### A firm near its limit -/

namespace Sample

/-- The firm may spend one dollar a month. -/
def nearTables : Tables :=
  { tables with
    firms := [{ firm with settings := { budgets := { firm_monthly_cents := some 100 } } }] }

/-- It has spent ninety cents. -/
def nearAnswer (_ : Unit) : (e : Op) → e.Answer × Unit
  | .findBudget _ _ _ => (.ok (some (90 * MICRO)), ())
  | e => (nearTables.answer e, ())

def nearCtx : PipelineCtx :=
  letI := platform
  { newPipelineCtx "r1" 0 (request "hello") with auth := some auth }

def nearBody : PrecheckBody := { task_class := "memo", user_id := none }

theorem near_policy : (((precheckPolicy deps auth "memo").eval nearAnswer nearCtx ()).1.1.toOption.map fun x =>
      (x.1.budgets, x.2.firmSettings.budgets, (checkRole x.2 nearCtx.envelope.metadata.userRole).isOk)) =
      some ({ firm_monthly_cents := some 100 }, { firm_monthly_cents := some 100 }, true) := by
  decide +kernel

theorem near_asked :
    ((precheckBudgets deps auth nearBody).eval nearAnswer nearCtx ()).1.1 =
      .ok (.affordable [⟨.firm, firmId.text, 100, 90 * MICRO⟩]) := rfl

end Sample

theorem sample_precheck_agrees :
    ((policyAndBudget Sample.deps).eval Sample.nearAnswer Sample.nearCtx ()).1.2.budgetWarnings =
      ["firm:90%"] := by
  have hpolicy : ∀ firmSettings effective q', (precheckPolicy Sample.deps Sample.auth
      Sample.nearBody.task_class).eval Sample.nearAnswer Sample.nearCtx () =
        ((.ok (firmSettings, effective), Sample.nearCtx), q') →
      effective.firmSettings.budgets = firmSettings.budgets ∧
        checkRole effective Sample.nearCtx.envelope.metadata.userRole = .ok () := by
    intro firmSettings effective q' hasked
    have hvalues := Sample.near_policy
    rw [show "memo" = Sample.nearBody.task_class from rfl, hasked] at hvalues
    simp only [Except.toOption, Option.map_some, Option.some.injEq, Prod.mk.injEq] at hvalues
    obtain ⟨hsettings, heffective, hrole⟩ := hvalues
    refine ⟨heffective.trans hsettings.symm, ?_⟩
    cases hcheck : checkRole effective Sample.nearCtx.envelope.metadata.userRole with
    | ok u => rfl
    | error err =>
        rw [hcheck] at hrole
        cases hrole
  have hagrees := precheck_agrees (h := Sample.nearAnswer) (q := ()) (c := Sample.nearCtx)
    rfl rfl rfl hpolicy
  rw [Sample.near_asked] at hagrees
  exact hagrees.2.trans (by decide +kernel)

/-- A cached policy may carry settings from before the limit: then the request passes. -/
def Sample.staleAnswer (_ : Unit) : (e : Op) → e.Answer × Unit
  | .cacheGet _ => (some ⟨Sample.effective [], 1⟩, ())
  | .findBudget _ _ _ => (.ok (some (100 * MICRO)), ())
  | e => (Sample.nearTables.answer e, ())

example : ((precheckBudgets Sample.deps Sample.auth Sample.nearBody).eval Sample.staleAnswer
    Sample.nearCtx ()).1.1 = .ok (.exhausted [("scope", .str "firm"), ("period", .str "197001")]) ∧
    ((policyAndBudget Sample.deps).eval Sample.staleAnswer Sample.nearCtx ()).1.1 = .ok () :=
  ⟨rfl, rfl⟩

end VibeRouter
