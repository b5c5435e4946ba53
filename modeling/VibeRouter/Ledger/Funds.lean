import Mathlib.Algebra.Order.BigOperators.Group.List
import VibeRouter.Gateway.Limits
import VibeRouter.Lib.Past

/-! # Spend and the requests beside it

Any number of requests of one gateway over the stored spend, which they check before they call an
adapter and add to when they have ended.  Between the check and the addition other requests run.  What
holds over every interleaving is `calls_are_funded`: from the moment at which the stored spend of a
scope has reached its limit, no request that has not read it by then calls an adapter in that period.  A
row with a negative cost would take spend away again, so that this is about ledgers without one. -/

namespace VibeRouter

open Effects Async Code

/-! ### The stored spend -/

/-- The clock of the gateway, `budgets_state` and `usage_ledger`. -/
structure Meter where
  clock : ℕ
  budgets : BudgetScope → String → Period → ℤ
  ledger : List UsageLedgerRow

namespace Meter

variable (m : Meter)

/-- `COALESCE(SUM(cost_cents), 0)` of the rows of a firm and a class. -/
def sumRows (rows : List UsageLedgerRow) (firmId taskClassId : Uuid) (since : ℕ) : ℤ :=
  ((rows.filter fun row => row.firmId = firmId ∧ row.taskClassId = some taskClassId ∧
    since ≤ row.ts).map fun row => row.costCents.getD 0).sum

def sumLedger (firmId taskClassId : Uuid) (since : ℕ) : ℤ := sumRows m.ledger firmId taskClassId since

def increment (scope : BudgetScope) (ref : String) (period : Period) (amount : ℤ) : Meter :=
  { m with
    budgets := fun scope' ref' period' =>
      if scope' = scope ∧ ref' = ref ∧ period' = period then m.budgets scope' ref' period' + amount
      else m.budgets scope' ref' period' }

/-- What an operation answers and makes of the stored spend; one that fails changes nothing. -/
def Moves (m : Meter) (e : Op) (r : e.Answer) (m' : Meter) : Prop :=
  match e, r with
  | .now, t => m.clock ≤ t ∧ m' = { m with clock := t }
  | .findBudget scope ref period, .ok found => found.getD 0 = m.budgets scope ref period ∧ m' = m
  | .sumLedger firmId taskClassId since, .ok total =>
      total = m.sumLedger firmId taskClassId since ∧ m' = m
  | .insertUsage values, .ok true => ∃ ts, m' = { m with ledger := ⟨values, ts⟩ :: m.ledger }
  | .incrementBudget scope ref period amount, .ok () => m' = m.increment scope ref period amount
  | _, _ => m' = m

/-- Time passes and spend grows. -/
structure Grows (m m' : Meter) : Prop where
  clock : m.clock ≤ m'.clock
  budgets : ∀ scope ref period, m.budgets scope ref period ≤ m'.budgets scope ref period
  ledger : m.ledger <:+ m'.ledger

theorem Grows.refl : Grows m m := ⟨le_rfl, fun _ _ _ => le_rfl, List.suffix_refl _⟩

variable {m} {m' m'' : Meter}

theorem Grows.trans (h : Grows m m') (h' : Grows m' m'') : Grows m m'' where
  clock := h.clock.trans h'.clock
  budgets scope ref period := (h.budgets scope ref period).trans (h'.budgets scope ref period)
  ledger := h.ledger.trans h'.ledger

/-- Rows that cost nothing less than nothing add to what is spent. -/
theorem sumRows_le {rows rows' : List UsageLedgerRow} (h : rows <:+ rows')
    (hcosts : ∀ row ∈ rows', 0 ≤ row.costCents.getD 0) (firmId taskClassId : Uuid) (since : ℕ) :
    sumRows rows firmId taskClassId since ≤ sumRows rows' firmId taskClassId since := by
  obtain ⟨added, rfl⟩ := h
  unfold sumRows
  rw [List.filter_append, List.map_append, List.sum_append]
  refine le_add_of_nonneg_left (List.sum_nonneg ?_)
  intro cost hcost
  obtain ⟨row, hrow, rfl⟩ := List.mem_map.1 hcost
  exact hcosts row (List.mem_append_left _ (List.mem_filter.1 hrow).1)

/-- Adding spend, as the requests do, takes none away. -/
theorem Moves.grows {e : Op} {r : e.Answer} (h : Moves m e r m') (hkeyed : e.WellKeyed) :
    Grows m m' := by
  have hsame : m' = m → Grows m m' := by
    rintro rfl
    exact Grows.refl m'
  cases e with
  | now =>
      obtain ⟨hle, rfl⟩ := h
      exact ⟨hle, fun _ _ _ => le_rfl, List.suffix_refl _⟩
  | findBudget scope ref period =>
      cases r with
      | error err => exact hsame h
      | ok found => exact hsame h.2
  | sumLedger firmId taskClassId since =>
      cases r with
      | error err => exact hsame h
      | ok total => exact hsame h.2
  | insertUsage values =>
      rcases r with err | _ | _
      · exact hsame h
      · exact hsame h
      · obtain ⟨ts, rfl⟩ := h
        exact ⟨le_rfl, fun _ _ _ => le_rfl, List.suffix_cons _ _⟩
  | incrementBudget scope ref period amount =>
      cases r with
      | error err => exact hsame h
      | ok u =>
          obtain rfl : m' = m.increment scope ref period amount := h
          refine ⟨le_rfl, fun scope' ref' period' => ?_, List.suffix_refl _⟩
          have hamount : 0 < amount := hkeyed
          unfold increment
          dsimp only
          split <;> omega
  | _ => exact hsame h

end Meter

/-! ### The limits of a request -/

namespace PipelineCtx

variable (c : PipelineCtx)

/-- The limits of the scopes of a request, in cents. -/
def limit (scope : CheckScope) : Option ℕ :=
  match c.auth, c.effective with
  | some auth, some effective =>
      let budgets := effective.firmSettings.budgets
      let user := c.envelope.metadata.userId.getD ""
      match scope with
      | .firm => budgets.firm_monthly_cents
      | .app => budgets.apps.lookup auth.app
      | .user => if user = "" then none else budgets.users.lookup user
      | .task_class => effective.policy.monthlyBudgetCents
  | _, _ => none

/-- The stored spend of the scopes of a request, in millionths of a cent. -/
def spent (m : Meter) (period : Period) (scope : CheckScope) : ℤ :=
  match c.auth, c.effective with
  | some auth, some effective => match scope with
    | .firm => m.budgets .firm auth.firmId.text period
    | .app => m.budgets .app (scopeKey .app auth.firmId auth.app) period
    | .user => m.budgets .user (scopeKey .user auth.firmId (c.envelope.metadata.userId.getD "")) period
    | .task_class => m.sumLedger auth.firmId effective.taskClass.id period.start
  | _, _ => 0

/-- No scope of the request has reached its limit. -/
def Funded (m : Meter) (period : Period) : Prop :=
  ∀ scope limit, c.limit scope = some limit → c.spent m period scope < limit * MICRO

variable {c} {c' : PipelineCtx} {m : Meter} {period : Period}

/-- The scopes depend on whom a request is for. -/
theorem Funded.congr (h : c.Funded m period) (hauth : c'.auth = c.auth)
    (heffective : c'.effective = c.effective)
    (huser : c'.envelope.metadata.userId = c.envelope.metadata.userId) : c'.Funded m period := by
  intro scope limit
  unfold PipelineCtx.limit spent
  rw [hauth, heffective, huser]
  exact h scope limit

end PipelineCtx

/-- The calls of a request are funded. -/
def Op.Funded (m : Meter) (period : Period) (e : Op) : Prop :=
  e.WellKeyed ∧ match e with
    | .execute c _ _ => c.Funded m period
    | .openStream c _ _ => c.Funded m period
    | _ => True

/-! ### A request -/

/-- What a request is told within a period in which the spend is at least that of `m`. -/
def Meter.Bounds (m : Meter) (period : Period) : (e : Op) → e.Answer → Prop
  | .now, t => currentPeriod t = period
  | .findBudget scope ref period', r => ∀ found, r = .ok found → period' = period →
      m.budgets scope ref period ≤ found.getD 0
  | .sumLedger firmId taskClassId since, r => ∀ total, r = .ok total → since = period.start →
      m.sumLedger firmId taskClassId period.start ≤ total
  | _, _ => True

section
variable {m : Meter} {period : Period} {L : (e : Op) → e.Answer → Prop} {s : PipelineCtx}

/-- A check that passes has found the spend below the limit. -/
theorem checkScope_funded (softPct : ℕ) (scope : CheckScope) (ref : String) (limit : Option ℕ)
    (spent : Stage ℤ) (warnings : List BudgetScopeCheck) {least : ℤ}
    (hspent : Uses L [.budgets] spent s fun r s' => s' = s ∧ ∀ n, r = .ok n → least ≤ n) :
    Uses L [.budgets] (checkScope period softPct scope ref limit spent warnings) s fun r s' =>
      s' = s ∧ ∀ ws, r = .ok ws → ∀ cents, limit = some cents → least < cents * MICRO := by
  unfold checkScope
  split
  · refine ⟨rfl, ?_⟩
    rintro ws - cents h
    cases h
  · next limitCents =>
    simp only [meets_bind]
    refine hspent.mono ?_
    rintro (err | n) s' ⟨rfl, hn⟩
    · exact ⟨rfl, by simp⟩
    have hle := hn n rfl
    dsimp only
    unfold evaluate
    dsimp only
    split
    · exact ⟨rfl, by simp⟩
    · next hnot =>
      refine ⟨rfl, ?_⟩
      rintro ws - cents h
      cases h
      omega

theorem spentFor_bounds (hL : ∀ e r, L e r → m.Bounds period e r) (scope : BudgetScope)
    (ref : String) :
    Uses L [.budgets] (spentFor scope ref period : Stage ℤ) s fun r s' =>
      s' = s ∧ ∀ n, r = .ok n → m.budgets scope ref period ≤ n := by
  simp only [spentFor, meets_bind, meets_await, meets_op]
  refine ⟨by simp [Op.Within, Op.part, Op.WellKeyed], fun r hr => ?_⟩
  cases r with
  | error err => exact ⟨trivial, by simp⟩
  | ok found =>
      refine ⟨rfl, ?_⟩
      rintro n h
      cases h
      exact hL _ _ hr found rfl rfl

theorem sumLedger_bounds (hL : ∀ e r, L e r → m.Bounds period e r) (firmId taskClassId : Uuid) :
    Uses L [.budgets] (await (op (.sumLedger firmId taskClassId period.start)) : Stage ℤ) s
      fun r s' => s' = s ∧ ∀ n, r = .ok n → m.sumLedger firmId taskClassId period.start ≤ n := by
  simp only [meets_await, meets_op]
  refine ⟨by simp [Op.Within, Op.part, Op.WellKeyed], fun r hr => ?_⟩
  cases r with
  | error err => exact ⟨trivial, by simp⟩
  | ok total =>
      refine ⟨trivial, ?_⟩
      rintro n h
      cases h
      exact hL _ _ hr total rfl rfl

/-- A request that passes the budget stage is funded. -/
theorem stageBudget_funded (hL : ∀ e r, L e r → m.Bounds period e r) :
    Uses L [.clock, .budgets, .audit] stageBudget s fun r s' =>
      (∃ ws, s' = { s with budgetWarnings := ws }) ∧ (r = .ok () → s.Funded m period) := by
  simp only [stageBudget, meets_bind]
  refine requireAuth_uses.call (by simp) ?_
  rintro (err | auth) s' ⟨rfl, hauth⟩
  · exact ⟨⟨_, rfl⟩, by simp⟩
  refine requireEffective_uses.call (by simp) ?_
  rintro (err | effective) s' ⟨rfl, heffective⟩
  · exact ⟨⟨_, rfl⟩, by simp⟩
  simp only [meets_ctx, checkBudgets, meets_bind, meets_dateNow]
  refine ⟨by simp [Op.Within, Op.part, Op.WellKeyed], fun now hnow => ?_⟩
  have hperiod : currentPeriod now = period := hL _ _ hnow
  rw [hperiod]
  refine (checkScope_funded _ _ _ _ _ _ (spentFor_bounds hL _ _)).call (by simp) ?_
  rintro (err | ws) s' ⟨rfl, hfirm⟩
  · exact ⟨⟨_, rfl⟩, by simp⟩
  refine (checkScope_funded _ _ _ _ _ _ (spentFor_bounds hL _ _)).call (by simp) ?_
  rintro (err | ws) s' ⟨rfl, happ⟩
  · exact ⟨⟨_, rfl⟩, by simp⟩
  refine (checkScope_funded _ _ _ _ _ _ (spentFor_bounds hL _ _)).call (by simp) ?_
  rintro (err | ws) s' ⟨rfl, huser⟩
  · exact ⟨⟨_, rfl⟩, by simp⟩
  refine (checkScope_funded _ _ _ _ _ _ (sumLedger_bounds hL _ _)).call (by simp) ?_
  rintro (err | ws) s' ⟨rfl, hclass⟩
  · exact ⟨⟨_, rfl⟩, by simp⟩
  have hfunded : s'.Funded m period := by
    intro scope limit
    unfold PipelineCtx.limit PipelineCtx.spent
    rw [hauth auth rfl, heffective effective rfl]
    cases scope with
    | firm => exact hfirm _ rfl limit
    | app => exact happ _ rfl limit
    | user => exact huser _ rfl limit
    | task_class => exact hclass _ rfl limit
  dsimp only
  split
  · simp only [meets_bind, meets_assign]
    refine (auditWarnings_uses _ _ _).call (by simp) ?_
    rintro r s'' ⟨-, rfl⟩
    exact ⟨⟨_, rfl⟩, fun _ => hfunded⟩
  · exact ⟨⟨_, rfl⟩, fun _ => hfunded⟩

theorem funded_beside : Beside (Op.Funded m period) where
  aside ps hps e h := by
    refine ⟨h.2, ?_⟩
    cases e with
    | execute => exact absurd h.1 hps
    | openStream => exact absurd h.1 hps
    | _ => trivial
  relays e h := by cases h <;> exact ⟨trivial, trivial⟩

theorem funded_callRule [Platform] :
    CallRule (Op.Funded m period) (PipelineCtx.Funded · m period) fun _ => True where
  toBeside := funded_beside
  reroute _ _ _ h := h.congr rfl rfl rfl
  call _ _ _ h _ _ _ := ⟨⟨trivial, h.congr rfl rfl rfl⟩, trivial, h.congr rfl rfl rfl⟩
  candidates _ _ _ _ _ _ _ _ _ _ := trivial

theorem runScrubber_funded (h : s.Funded m period) (mode : ScrubberMode) (cloudPrimary : Bool) :
    Uses L [] (runScrubber mode cloudPrimary) s fun r s' => (∃ report, r = .ok report) ∧
      s'.Funded m period := by
  unfold runScrubber
  simp only [meets_bind, meets_ctx]
  split
  · split
    · simp only [meets_bind, meets_assign]
      cases cloudPrimary with
      | true => exact ⟨⟨_, rfl⟩, h.congr rfl rfl rfl⟩
      | false => exact ⟨⟨_, rfl⟩, h.congr rfl rfl rfl⟩
    · exact ⟨⟨_, rfl⟩, h⟩
  · split
    · exact ⟨⟨_, rfl⟩, h.congr rfl rfl rfl⟩
    · exact ⟨⟨_, rfl⟩, h⟩

theorem stageScrub_funded [Platform] (h : s.Funded m period) :
    Uses L [.audit] stageScrub s fun r s' => r = .ok () → s'.Funded m period := by
  simp only [stageScrub, meets_bind]
  refine requireEffective_uses.call (by simp) ?_
  rintro (err | effective) s ⟨rfl, -⟩
  · simp
  refine requireAuth_uses.call (by simp) ?_
  rintro (err | auth) s ⟨rfl, -⟩
  · simp
  simp only [meets_ctx, meets_ofExcept]
  cases scrubTarget effective s.envelope with
  | error err => simp
  | ok model =>
      dsimp only
      split
      · exact fun _ => h
      · simp only [meets_bind]
        refine (runScrubber_funded h _ _).call (by simp) ?_
        rintro _ s' ⟨⟨report, rfl⟩, h'⟩
        dsimp only
        split
        · exact fun _ => h'
        · refine (actOnReport_uses _ _ _ _ _).mono ?_
          rintro r s'' ⟨hkeep, hset⟩ hr
          by_cases hmode : effective.firmSettings.scrubber_mode.getD .redact = .block
          · rw [hset hmode hr]
            exact h'.congr rfl rfl rfl
          · rw [hkeep hmode]
            exact h'

theorem stageRoute_funded [Platform] (deps : PipelineDeps) (hL : ∀ e r, L e r → e.Lawful r)
    (h : s.Funded m period) :
    Uses L [.clock, .engine, .audit, .vault] (stageRoute deps) s fun r s' => r = .ok () →
      s'.Funded m period := by
  simp only [stageRoute, meets_bind]
  refine requireEffective_uses.call (by simp) ?_
  rintro (err | effective) s ⟨rfl, -⟩
  · simp
  refine requireAuth_uses.call (by simp) ?_
  rintro (err | auth) s ⟨rfl, -⟩
  · simp
  simp only [meets_ctx, meets_ofExcept]
  cases selectModelWith effective s.envelope with
  | error err => simp
  | ok selected =>
      refine (auditUpgrade_uses _ _ _).call (by simp) ?_
      rintro _ s' ⟨rfl, rfl⟩
      refine (routePrimary_uses deps hL _).mono ?_
      rintro r _ ⟨b, route, routeError, rfl, -⟩ _
      exact h.congr rfl rfl rfl

variable [Platform] (deps : PipelineDeps)

theorem stages_funded (hlawful : ∀ e r, L e r → e.Lawful r ∧ PolicyEngine.KeyedAnswer e r)
    (hL : ∀ e r, L e r → m.Bounds period e r) (bearerToken : Option String) :
    (stages deps bearerToken).Meets L (Op.Funded m period) s fun r _ =>
      ∀ stream, r = .ok (some stream) →
        stream.GenMeets L (Op.Funded m period) fun _ => True := by
  have hbeside : Beside (Op.Funded m period) := funded_beside
  simp only [stages, meets_bind]
  refine hbeside.of_uses (stageAuth_uses deps bearerToken) (by simp) ?_
  rintro (err | _) _ (⟨rfl, hr⟩ | ⟨auth, rfl⟩)
  · simp
  · simp
  · exact absurd rfl hr
  refine hbeside.of_uses stageResolveTaskClass_uses (by simp) ?_
  rintro (err | _) _ rfl
  · simp
  refine hbeside.of_uses (stagePolicy_uses deps) (by simp) ?_
  rintro (err | _) _ (⟨hr, -⟩ | ⟨effective, rfl⟩)
  · simp
  · simp
  · exact absurd rfl hr
  refine hbeside.of_uses (stageBudget_funded hL) (by simp) ?_
  rintro (err | _) _ ⟨⟨ws, rfl⟩, hfunded⟩
  · simp
  have hfunded : { (s.withAuth auth).withPolicy effective with budgetWarnings := ws }.Funded m
      period := (hfunded rfl).congr rfl rfl rfl
  refine hbeside.of_uses (stageScrub_funded hfunded) (by simp) ?_
  rintro (err | _) s₁ hscrub
  · simp
  refine hbeside.of_uses (stageRoute_funded deps (fun e r h => (hlawful e r h).1) (hscrub rfl))
    (by simp) ?_
  rintro (err | _) s₂ hroute
  · simp
  have hcall : ∀ route : RouteDecision,
      Op.Funded m period (.execute s₂ route (clampToModel s₂.envelope route.model)) ∧
        Op.Funded m period (.openStream s₂ route (clampToModel s₂.envelope route.model)) :=
    fun route => ⟨⟨trivial, hroute rfl⟩, trivial, hroute rfl⟩
  refine (stageAdapt_calls funded_callRule deps hlawful (hroute rfl) fun _ route _ =>
    hcall route).mono ?_
  rintro (err | stream) s₃ hstream
  · simp
  simp only [meets_ctx]
  split
  · exact fun stream' heq => hstream stream' (by rw [← heq])
  · simp only [meets_bind]
    refine hbeside.of_uses DbLedger.write_uses (by simp) ?_
    rintro (err | _) _ rfl
    · simp
    refine hbeside.of_uses emitTerminalAudit_uses (by simp) ?_
    rintro _ _ ⟨rfl, rfl⟩
    exact fun stream' heq => hstream stream' (by rw [← heq])

/-- What a request calls it has the funds for. -/
theorem chatCompletions_funded
    (hlawful : ∀ e r, L e r → e.Lawful r ∧ PolicyEngine.KeyedAnswer e r)
    (hL : ∀ e r, L e r → m.Bounds period e r) (bearerToken : Option String) :
    (chatCompletions deps bearerToken).Meets L (Op.Funded m period) s fun _ _ => True :=
  chatCompletions_calls funded_beside deps bearerToken (stages_funded deps hlawful hL bearerToken)

/-! ### Requests over the stored spend -/

/-- What the requests of a gateway share. -/
structure Desk where
  meter : Meter
  providers : ProviderCache

/-- The requests of one gateway, over the stored spend.  Other processes may add to it, and an
administrator may clear the provider cache. -/
def metered :
    System ℕ Op Op.Answer (Except Thrown Unit × PipelineCtx) Desk (Past Op Op.Answer) where
  env := remembering Op.Lawful
  handler i d _ e r d' :=
    (∃ q, (gateway deps).handler i d.providers q e r d'.providers) ∧ d.meter.Moves e r d'.meter
  start _ _ p h := h = [] ∧ ∃ bearerToken requestId startedAt q,
    p = chatCompletions deps bearerToken (newPipelineCtx requestId startedAt q)
  drift d d' := (d'.providers = d.providers ∨ d'.providers = .empty) ∧ d.meter.Grows d'.meter

theorem metered_remembers : System.Remembers (metered deps) Op.Lawful where
  env := rfl
  start _ _ _ _ h := h.1

/-- The provider cache answers with rows of the kind it is asked for. -/
theorem metered_preserves :
    System.Preserves (metered deps) (fun _ e r => PolicyEngine.KeyedAnswer e r)
      (fun _ e => ∃ q, Op.Bounded q e) (fun _ _ => True) fun d L => d.providers.Keyed ∧
        ∀ i h, L i = some h → ∀ x ∈ h, PolicyEngine.KeyedAnswer x.1 x.2 := by
  have hgateway := gateway_preserves deps (A := Op.Bounded) (fun _ _ h => h.1)
    fun q bearerToken requestId startedAt => chatCompletions_meets deps
      (s := newPipelineCtx requestId startedAt q) (fun _ _ h => h) ⟨rfl, rfl⟩ bearerToken
  constructor
  · rintro i d p h ⟨-, bearerToken, requestId, startedAt, q, rfl⟩
    have hmeets := chatCompletions_meets deps (L := fun e r => e.Lawful r ∧
      PolicyEngine.KeyedAnswer e r) (s := newPipelineCtx requestId startedAt q) (fun _ _ h => h)
      ⟨rfl, rfl⟩ bearerToken
    show (chatCompletions deps bearerToken).wp _ _ (fun _ _ _ => True) _ h
    exact hmeets.wp (J := fun _ => True) (fun _ _ _ hr => hr) trivial
      (fun _ e _ he => ⟨⟨q, he⟩, fun _ _ => trivial⟩) fun _ _ _ _ _ => trivial
  · rintro i d L p h ⟨hkeyed, hpast⟩ - ⟨rfl, -⟩
    refine ⟨hkeyed, fun j h' hj x hx => ?_⟩
    by_cases hji : j = i
    · rw [hji, Function.update_self] at hj
      cases hj
      cases hx
    · rw [Function.update_of_ne hji] at hj
      exact hpast j h' hj x hx
  · rintro i d L h e r d' ⟨hkeyed, -⟩ - hlawful ⟨⟨q, hhandler⟩, -⟩
    exact hgateway.rely i _ (fun _ => some q) q e r _ hkeyed rfl hlawful hhandler
  · rintro i d L h e r d' ⟨hkeyed, hpast⟩ hi ⟨q, hbounded⟩ hlawful ⟨⟨q', hhandler⟩, -⟩
    have htold := hgateway.rely i _ (fun _ => some q') q' e r _ hkeyed rfl hlawful hhandler
    refine ⟨hgateway.act i _ (fun _ => some q) q e r _ hkeyed rfl hbounded hlawful hhandler, ?_⟩
    intro j h' hj x hx
    by_cases hji : j = i
    · rw [hji, Function.update_self] at hj
      cases hj
      rcases List.mem_cons.1 hx with rfl | hx
      · exact htold
      · exact hpast i h hi x hx
    · rw [Function.update_of_ne hji] at hj
      exact hpast j h' hj x hx
  · rintro d d' L ⟨hkeyed, hpast⟩ ⟨hproviders, -⟩
    refine ⟨?_, hpast⟩
    rcases hproviders with heq | heq
    · exact heq ▸ hkeyed
    · exact heq ▸ ProviderCache.keyed_empty

omit [Platform] in
theorem currentPeriod_mono {t t' : ℕ} (h : t ≤ t') : currentPeriod t ≤ currentPeriod t' :=
  Calendar.monthOf_mono (Nat.div_le_div_right h)

/-- What a request is told from the moment on at which the stored spend was `m`: a sum is that of a ledger
in between. -/
def Meter.Since (m : Meter) (period : Period) (d : Desk) : (e : Op) → e.Answer → Prop
  | .now, t => currentPeriod t = period ∨ m.clock ≤ t ∧ t ≤ d.meter.clock
  | .findBudget scope ref period', r => ∀ found, r = .ok found → period' = period →
      m.budgets scope ref period ≤ found.getD 0
  | .sumLedger firmId taskClassId since, r => ∀ total, r = .ok total →
      ∃ rows, m.ledger <:+ rows ∧ rows <:+ d.meter.ledger ∧
        total = Meter.sumRows rows firmId taskClassId since
  | _, _ => True

omit [Platform] in
theorem Meter.Since.grows {d d' : Desk} (h : d.meter.Grows d'.meter) {e : Op} {r : e.Answer}
    (hsince : m.Since period d e r) : m.Since period d' e r := by
  cases e with
  | now => exact hsince.imp id fun ht => ⟨ht.1, ht.2.trans h.clock⟩
  | sumLedger firmId taskClassId since =>
      intro total htotal
      obtain ⟨rows, hle, hle', hsum⟩ := hsince total htotal
      exact ⟨rows, hle, hle'.trans h.ledger, hsum⟩
  | _ => exact hsince

theorem metered_tells (m : Meter) (period : Period) :
    System.Tells (metered deps) Op.WellKeyed (fun d => m.Grows d.meter) (m.Since period) where
  act := by
    rintro i d h e r d' hgrows hkeyed ⟨-, hmoves⟩
    have hgrows' := hgrows.trans (hmoves.grows hkeyed)
    refine ⟨hgrows', ?_, fun e' r' => Meter.Since.grows (hmoves.grows hkeyed)⟩
    cases e with
    | now =>
        obtain ⟨hle, heq⟩ := hmoves
        refine Or.inr ⟨hgrows.clock.trans hle, ?_⟩
        rw [heq]
    | findBudget scope ref period' =>
        rintro found rfl rfl
        obtain ⟨hfound, -⟩ := hmoves
        rw [hfound]
        exact hgrows.budgets scope ref period'
    | sumLedger firmId taskClassId since =>
        rintro total rfl
        obtain ⟨htotal, hsame⟩ := hmoves
        refine ⟨d.meter.ledger, hgrows.ledger, ?_, htotal⟩
        exact hsame ▸ List.suffix_refl _
    | _ => trivial
  drift := by
    rintro d d' hgrows ⟨-, hdrift⟩
    exact ⟨hgrows.trans hdrift, fun e r => Meter.Since.grows hdrift⟩

/-- A request that has not read its budgets, and has been told no time outside the period. -/
def Unread (period : Period) (h : Past Op Op.Answer) : Prop :=
  ∀ x ∈ h, x.1.part ≠ .budgets ∧ ∀ t, x = ⟨.now, t⟩ → currentPeriod t = period

omit [Platform] in
theorem Unread.since {h : Past Op Op.Answer} (hunread : Unread period h) (m : Meter) (d : Desk) :
    ∀ x ∈ h, m.Since period d x.1 x.2 := by
  rintro ⟨e, r⟩ hx
  obtain ⟨hpart, hnow⟩ := hunread _ hx
  cases e with
  | now => exact Or.inl (hnow r rfl)
  | findBudget scope ref period' => exact absurd rfl hpart
  | sumLedger firmId taskClassId since => exact absurd rfl hpart
  | _ => trivial

/-- **Calls are funded.**  In whatever way requests interleave, while no row has a negative cost: a request
that at some moment has read neither its budgets nor a time outside the period, or arrives later, only
calls an adapter in the same period if none of its scopes had reached its limit at that moment. -/
theorem calls_are_funded {d : Desk} (hkeyed : d.providers.Keyed)
    {P P' : Pool ℕ Op Op.Answer (Except Thrown Unit × PipelineCtx) Desk (Past Op Op.Answer)}
    (hP : (metered deps).Reachable d P) (hsteps : Relation.ReflTransGen (metered deps).Step P P')
    (hperiod : currentPeriod P.shared.meter.clock = period)
    (hperiod' : currentPeriod P'.shared.meter.clock = period) {i : ℕ}
    (hcosts : ∀ row ∈ P'.shared.meter.ledger, 0 ≤ row.costCents.getD 0)
    (hunread : ∀ p h, P.thread i = some (p, h) → Unread period h)
    {p : Prog Op Op.Answer (Except Thrown Unit × PipelineCtx)} {h : Past Op Op.Answer}
    (hi : P'.thread i = some (p, h)) {c : PipelineCtx} {route : RouteDecision} {env : AIRequest}
    (hcall : (∃ e k, p = .call e k ∧ (e = .execute c route env ∨ e = .openStream c route env)) ∨
      ∃ x ∈ h, x.1 = .execute c route env ∨ x.1 = .openStream c route env) :
    c.Funded P.shared.meter period := by
  have hP' : (metered deps).Reachable d P' := hP.trans hsteps
  obtain ⟨d₀, p₀, ⟨-, bearerToken, requestId, startedAt, q, rfl⟩, hrun⟩ :=
    System.run_of_thread (metered_remembers deps) hP' hi
  have hholds := fun Q (hQ : (metered deps).Reachable d Q) => System.invariant (metered_preserves deps)
    ⟨hkeyed, fun _ _ hnone => by cases hnone⟩ hQ
  have hpast := (hholds P' hP').1.2 i h (by
    unfold Pool.locals
    rw [hi]
    rfl)
  have hcalls : ∀ Q, Relation.ReflTransGen (metered deps).Step P Q → ∀ j e k h,
      Q.thread j = some (.call e k, h) → e.WellKeyed := by
    intro Q hQ j e k h hj
    obtain ⟨q, hbounded⟩ := ((hholds Q (hP.trans hQ)).2 j _ h hj).1
    exact hbounded.1
  obtain ⟨-, htold⟩ := System.past_since (metered_remembers deps)
    (metered_tells deps P.shared.meter period) hsteps hcalls (Meter.Grows.refl _) fun p h hi =>
      (hunread p h hi).since _ _
  have hlaws : ∀ x ∈ h, (x.1.Lawful x.2 ∧ PolicyEngine.KeyedAnswer x.1 x.2) ∧
      P.shared.meter.Bounds period x.1 x.2 := by
    rintro ⟨e, r⟩ hx
    refine ⟨⟨Prog.past_lawful hrun (fun _ hnil => absurd hnil List.not_mem_nil) _ hx,
      hpast _ hx⟩, ?_⟩
    have hsince := htold p h hi _ hx
    cases e with
    | now =>
        rcases hsince with heq | ⟨hle, hle'⟩
        · exact heq
        · have hlow := currentPeriod_mono hle
          have hhigh := currentPeriod_mono hle'
          rw [hperiod] at hlow
          rw [hperiod'] at hhigh
          exact le_antisymm hhigh hlow
    | findBudget scope ref period' => exact hsince
    | sumLedger firmId taskClassId since =>
        rintro total rfl rfl
        obtain ⟨rows, hle, hle', hsum⟩ := hsince total rfl
        rw [hsum]
        exact Meter.sumRows_le hle (fun row hrow => hcosts row (hle'.subset hrow)) _ _ _
    | _ => trivial
  have hmeets := chatCompletions_funded deps (m := P.shared.meter)
    (L := fun e r => (e.Lawful r ∧ PolicyEngine.KeyedAnswer e r) ∧
      P.shared.meter.Bounds period e r)
    (s := newPipelineCtx requestId startedAt q) (fun _ _ hr => hr.1) (fun _ _ hr => hr.2) bearerToken
  obtain ⟨hrest, hdone⟩ := Prog.keeps_of_past hmeets hrun hlaws
    fun _ hnil => absurd hnil List.not_mem_nil
  rcases hcall with ⟨e, k, rfl, rfl | rfl⟩ | ⟨⟨e, r⟩, hx, rfl | rfl⟩
  · exact hrest.1.2
  · exact hrest.1.2
  · exact (hdone _ hx).2
  · exact (hdone _ hx).2

end

/-! ### A firm with a limit -/

namespace Sample

/-- The firm may spend one dollar a month. -/
def limitedTables : Tables :=
  { tables with
    firms := [{ firm with settings := { budgets := { firm_monthly_cents := some 100 } } }] }

/-- Forty cents are spent. -/
def limitedDesk : Desk where
  meter := { clock := 0, budgets := fun _ _ _ => 40 * MICRO, ledger := [] }
  providers := .empty

/-- Answers from the tables and the meter, whose clock stands still. -/
def deskAnswer (_ : ℕ) (d : Desk) (_ : Past Op Op.Answer) : (e : Op) → e.Answer × Desk
  | .now => (d.meter.clock, d)
  | .providerCacheGet key => (d.providers.get key, d)
  | .providerCacheSet key entry => ((), { d with providers := d.providers.set key entry })
  | .findBudget scope ref period => (.ok (some (d.meter.budgets scope ref period)), d)
  | .sumLedger firmId taskClassId since => (.ok (d.meter.sumLedger firmId taskClassId since), d)
  | .insertUsage values => (.ok true,
      { d with meter := { d.meter with ledger := ⟨values, d.meter.clock⟩ :: d.meter.ledger } })
  | .incrementBudget scope ref period amount =>
      (.ok (), { d with meter := d.meter.increment scope ref period amount })
  | e => (limitedTables.answer e, d)

theorem deskAnswer_sound [Platform] (deps : PipelineDeps) :
    System.Sound (metered deps) deskAnswer := by
  intro i d h e
  have hlawful := limitedTables.lawful_answer e
  cases e with
  | now => exact ⟨trivial, ⟨request "", rfl⟩, le_rfl, rfl⟩
  | providerCacheGet key => exact ⟨trivial, ⟨request "", rfl, rfl⟩, rfl⟩
  | providerCacheSet key entry => exact ⟨trivial, ⟨request "", rfl⟩, rfl⟩
  | findBudget scope ref period => exact ⟨trivial, ⟨request "", rfl⟩, rfl, rfl⟩
  | sumLedger firmId taskClassId since => exact ⟨trivial, ⟨request "", rfl⟩, rfl, rfl⟩
  | insertUsage values => exact ⟨trivial, ⟨request "", rfl⟩, _, rfl⟩
  | incrementBudget scope ref period amount => exact ⟨trivial, ⟨request "", rfl⟩, rfl⟩
  | _ => exact ⟨hlawful, ⟨request "", rfl⟩, rfl⟩

/-- The gateway after some steps of one request. -/
def spending (steps : ℕ) :
    Pool ℕ Op Op.Answer (Except Thrown Unit × PipelineCtx) Desk (Past Op Op.Answer) :=
  letI := platform
  (System.initial limitedDesk).exec (metered deps).env.next deskAnswer
    [.spawn 0 (chatCompletions deps (some token) (newPipelineCtx "r1" 0 (request "hello"))) [],
      .run 0 steps]

theorem spending_reachable (steps : ℕ) :
    letI := platform
    (metered deps).Reachable limitedDesk (spending steps) := by
  let := platform
  exact System.reachable_exec (deskAnswer_sound deps) .refl
    ⟨rfl, ⟨rfl, some token, "r1", 0, request "hello", rfl⟩, trivial⟩

/-- The call of the request, and the limit of its firm. -/
theorem spending_calls : (((spending 28).pending 0).bind Op.call?).map
    (fun call => (call.1.limit .firm, (spending 28).shared.meter.clock)) = some (some 100, 0) := by
  decide +kernel

/-- No row has been stored yet. -/
theorem spending_costs : ∀ row ∈ (spending 28).shared.meter.ledger, 0 ≤ row.costCents.getD 0 := by
  decide +kernel

end Sample

theorem sample_calls_are_funded : ∃ c : PipelineCtx, c.limit .firm = some 100 ∧
    c.Funded Sample.limitedDesk.meter 0 := by
  let := Sample.platform
  obtain ⟨⟨c, route, env⟩, hcall, hvalues⟩ := Option.map_eq_some_iff.1 Sample.spending_calls
  obtain ⟨e, he, hargs⟩ := Option.bind_eq_some_iff.1 hcall
  obtain rfl := Op.eq_of_call? hargs
  obtain ⟨k, h, hk⟩ := Pool.thread_of_pending he
  have hclock : (Sample.spending 28).shared.meter.clock = 0 := congrArg Prod.snd hvalues
  refine ⟨c, congrArg Prod.fst hvalues, ?_⟩
  exact calls_are_funded Sample.deps ProviderCache.keyed_empty .refl (Sample.spending_reachable 28)
    (by decide) (by rw [hclock]; decide) Sample.spending_costs (fun _ _ hnone => by cases hnone) hk
    (.inl ⟨_, k, rfl, .inl rfl⟩)

end VibeRouter
