import VibeRouter.Gateway.Op

/-! # The budget engine

`checkBudgets` compares the spend of each configured scope with its limit before a request is
served; `recordSpend` adds the cost of a served request to the firm, app and user scopes.  A
limit is a number of cents, spend is counted in millionths of a cent. -/

namespace VibeRouter

open Effects Async

variable {S : Type}

/-- Keys are firm-scoped. -/
def scopeKey (scope : BudgetScope) (firmId : Uuid) (ref : String) : String :=
  if scope = .firm then firmId.text else firmId.text ++ ":" ++ ref

def spentFor (scope : BudgetScope) (scopeRef : String) (period : Period) : Async S ℤ := do
  let row ← await (op (.findBudget scope scopeRef period))
  pure (row.getD 0)

/-- Millionths of a cent in a cent. -/
def MICRO : ℕ := 1000000

/-- `evaluate`: throw at the limit, warn from the soft threshold on. -/
def evaluate (period : Period) (softPct : ℕ) (check : BudgetScopeCheck)
    (warnings : List BudgetScopeCheck) : Async S (List BudgetScopeCheck) :=
  if check.limitCents * MICRO ≤ check.spentCents then
    fail .budget_exceeded (check.scope.text ++ " budget exhausted for " ++ period.text)
      [("scope", .str check.scope.text), ("period", .str period.text)]
  else
    pure (if check.limitCents * MICRO * softPct ≤ check.spentCents * 100 then warnings ++ [check]
      else warnings)

structure BudgetParams where
  firmId : Uuid
  app : String
  userId : Option String
  taskClassId : Uuid
  settings : BudgetSettings
  policyMonthlyCents : Option ℕ

/-- One scope of `checkBudgets`: nothing when it has no limit. -/
def checkScope (period : Period) (softPct : ℕ) (scope : CheckScope) (scopeRef : String)
    (limit : Option ℕ) (spent : Async S ℤ) (warnings : List BudgetScopeCheck) :
    Async S (List BudgetScopeCheck) :=
  match limit with
  | none => pure warnings
  | some limitCents => do
      let spentCents ← spent
      evaluate period softPct { scope, scopeRef, limitCents, spentCents } warnings

/-- The soft warnings; `budget_exceeded` when a scope has reached its limit. -/
def checkBudgets (p : BudgetParams) : Async S (List BudgetScopeCheck) := do
  let period := currentPeriod (← dateNow)
  let softPct := p.settings.soft_pct.getD 80
  let warnings ← checkScope period softPct .firm p.firmId.text p.settings.firm_monthly_cents
    (spentFor .firm p.firmId.text period) []
  let warnings ← checkScope period softPct .app p.app (p.settings.apps.lookup p.app)
    (spentFor .app (scopeKey .app p.firmId p.app) period) warnings
  let user := p.userId.getD ""
  let warnings ← checkScope period softPct .user user
    (if user = "" then none else p.settings.users.lookup user)
    (spentFor .user (scopeKey .user p.firmId user) period) warnings
  checkScope period softPct .task_class p.taskClassId.text p.policyMonthlyCents
    (await (op (.sumLedger p.firmId p.taskClassId period.start))) warnings

/-- The scopes a cost is added to. -/
def spendScopes (firmId : Uuid) (app : String) (userId : Option String) :
    List (BudgetScope × String) :=
  [(.firm, scopeKey .firm firmId firmId.text), (.app, scopeKey .app firmId app)] ++
    (match userId with
      | some u => if u = "" then [] else [(.user, scopeKey .user firmId u)]
      | none => [])

/-- The loop of `recordSpend`. -/
def incrementAll (period : Period) (amount : ℤ) : List (BudgetScope × String) → Async S Unit
  | [] => pure ()
  | (scope, ref) :: scopes => do
      await (op (.incrementBudget scope ref period amount))
      incrementAll period amount scopes

/-- Add a cost to the spend of its scopes. -/
def recordSpend (firmId : Uuid) (app : String) (userId : Option String) (costCents : ℤ) :
    Async S Unit :=
  if costCents ≤ 0 then pure ()
  else do
    let period := currentPeriod (← dateNow)
    incrementAll period costCents (spendScopes firmId app userId)

end VibeRouter
