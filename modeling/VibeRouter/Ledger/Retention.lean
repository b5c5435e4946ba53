import VibeRouter.Ledger.Consistent

/-! # Retention

Spend is kept twice: `budgets_state` counts it for the firm, the apps and the users, and the spend of
a task class is summed from the rows of the usage ledger since the start of the month.  The retention
job deletes rows by their age alone.  A check of the budgets does not notice its purges exactly when
it keeps rows for at least as long as the longest month. -/

namespace VibeRouter

open Effects Async Code

/-- Milliseconds in a day. -/
def DAY : ℕ := 86400000

/-- The two stores, and the clock. -/
structure Stores extends LedgerTables where
  now : ℕ

namespace Stores

/-- `SUM(cost_cents)` of the rows of a task class since a time. -/
def sumSince (s : Stores) (firmId taskClassId : Uuid) (since : ℕ) : ℤ :=
  ((s.entries.filter fun e => e.firmId = firmId ∧ e.taskClassId = some taskClassId ∧
    since ≤ e.ts).map Entry.cost).sum

/-- What the database and the clock answer. -/
def answer (s : Stores) (e : Op) : e.Answer × Stores :=
  match e with
  | .now => (s.now, s)
  | .findBudget scope scopeRef period => (.ok (some (s.spent (scope, scopeRef) period)), s)
  | .sumLedger firmId taskClassId since => (.ok (s.sumSince firmId taskClassId since), s)
  | e => (e.calm, s)

/-- What `checkBudgets` comes to. -/
def verdict (s : Stores) (p : BudgetParams) : Except Thrown (List BudgetScopeCheck) :=
  ((checkBudgets p : Async Unit (List BudgetScopeCheck)).eval answer () s).1.1

/-- The purge: rows older than `days` days are deleted. -/
def purge (days : ℕ) (s : Stores) : Stores :=
  { s with entries := s.entries.filter fun e => ¬e.ts + days * DAY < s.now }

end Stores

/-! ### Runs -/

/-- What happens to the stores: time passes, a request writes its row or a part of its spend, and the
retention job runs. -/
inductive LedgerEvent
  | wait (ms : ℕ)
  | insert (e : Entry)
  | increment (x : SpendScope) (p : Period) (amount : ℤ)
  | purge

namespace Stores

/-- The stores after an event; purges happen in the months that `active` holds of, if retention is
limited. -/
def after (days : Option ℕ) (active : Period → Bool) (s : Stores) : LedgerEvent → Stores
  | .wait ms => { s with now := s.now + ms }
  | .insert e => { s with toLedgerTables := s.toLedgerTables.insert e }
  | .increment x p amount => { s with toLedgerTables := s.toLedgerTables.increment x p amount }
  | .purge => match days with
    | none => s
    | some d => if active (currentPeriod s.now) then s.purge d else s

def run (days : Option ℕ) (active : Period → Bool) (s : Stores) (events : List LedgerEvent) :
    Stores := events.foldl (after days active) s

/-- The clock after a run. -/
def clock (s : Stores) (events : List LedgerEvent) : ℕ := (s.run none (fun _ => false) events).now

end Stores

/-! ### The verdict -/

/-- What one scope comes to, with `spent` recorded. -/
def scopeVerdict (period : Period) (softPct : ℕ) (scope : CheckScope) (scopeRef : String)
    (limit : Option ℕ) (spent : ℤ) (warnings : List BudgetScopeCheck) :
    Except Thrown (List BudgetScopeCheck) :=
  match limit with
  | none => .ok warnings
  | some limitCents =>
      if limitCents * MICRO ≤ spent then
        routerError .budget_exceeded (scope.text ++ " budget exhausted for " ++ period.text)
          [("scope", .str scope.text), ("period", .str period.text)]
      else .ok (if limitCents * MICRO * softPct ≤ spent * 100 then
        warnings ++ [⟨scope, scopeRef, limitCents, spent⟩] else warnings)

namespace Stores

variable {s : Stores} {p : BudgetParams}

theorem eval_checkScope {period : Period} {softPct : ℕ} {scope : CheckScope} {scopeRef : String}
    {limit : Option ℕ} {spent : Async Unit ℤ} {n : ℤ} {warnings : List BudgetScopeCheck}
    (hspent : spent.eval answer () s = ((.ok n, ()), s)) :
    (checkScope period softPct scope scopeRef limit spent warnings).eval answer () s =
      ((scopeVerdict period softPct scope scopeRef limit n warnings, ()), s) := by
  unfold checkScope scopeVerdict
  cases limit with
  | none => rfl
  | some limitCents =>
      dsimp only
      rw [Code.eval_bind, hspent]
      dsimp only
      unfold evaluate
      split
      · rfl
      · rfl

theorem eval_spentFor (scope : BudgetScope) (scopeRef : String) (period : Period) :
    (spentFor scope scopeRef period : Async Unit ℤ).eval answer () s =
      ((.ok (s.spent (scope, scopeRef) period), ()), s) := rfl

theorem eval_sumLedger (firmId taskClassId : Uuid) (since : ℕ) :
    (await (op (.sumLedger firmId taskClassId since)) : Async Unit ℤ).eval answer () s =
      ((.ok (s.sumSince firmId taskClassId since), ()), s) := rfl

/-- The verdict as a function of the clock, the recorded spend, and the sum of the task class. -/
def verdictOf (p : BudgetParams) (now : ℕ) (spent : SpendScope → Period → ℤ) (sum : ℤ) :
    Except Thrown (List BudgetScopeCheck) := do
  let period := currentPeriod now
  let softPct := p.settings.soft_pct.getD 80
  let user := p.userId.getD ""
  let ws ← scopeVerdict period softPct .firm p.firmId.text p.settings.firm_monthly_cents
    (spent (.firm, p.firmId.text) period) []
  let ws ← scopeVerdict period softPct .app p.app (p.settings.apps.lookup p.app)
    (spent (.app, scopeKey .app p.firmId p.app) period) ws
  let ws ← scopeVerdict period softPct .user user
    (if user = "" then none else p.settings.users.lookup user)
    (spent (.user, scopeKey .user p.firmId user) period) ws
  scopeVerdict period softPct .task_class p.taskClassId.text p.policyMonthlyCents sum ws

/-- Two parts of a check that leave the stores as they are. -/
theorem eval_then {α β : Type} {c : Async Unit α} {f : α → Async Unit β} {r : Except Thrown α}
    {g : α → Except Thrown β} (hc : c.eval answer () s = ((r, ()), s))
    (hf : ∀ a, (f a).eval answer () s = ((g a, ()), s)) :
    (c >>= f).eval answer () s = ((r >>= g, ()), s) := by
  rw [Code.eval_bind, hc]
  cases r with
  | error e => rfl
  | ok a => exact hf a

theorem verdict_eq (s : Stores) (p : BudgetParams) :
    s.verdict p = verdictOf p s.now s.spent
      (s.sumSince p.firmId p.taskClassId (currentPeriod s.now).start) := by
  have hnow : (dateNow : Async Unit ℕ).eval answer () s = ((.ok s.now, ()), s) := rfl
  have heval : (checkBudgets p : Async Unit (List BudgetScopeCheck)).eval answer () s =
      ((verdictOf p s.now s.spent
        (s.sumSince p.firmId p.taskClassId (currentPeriod s.now).start), ()), s) := by
    unfold checkBudgets
    rw [Code.eval_bind, hnow]
    refine eval_then (eval_checkScope (eval_spentFor ..)) fun ws => ?_
    refine eval_then (eval_checkScope (eval_spentFor ..)) fun ws => ?_
    refine eval_then (eval_checkScope (eval_spentFor ..)) fun ws => ?_
    exact eval_checkScope (eval_sumLedger ..)
  unfold verdict
  rw [heval]

/-! ### Months -/

/-- Stores that agree on the clock, the recorded spend, and the rows of the current month. -/
structure SameMonth (s s' : Stores) : Prop where
  now : s'.now = s.now
  spent : s'.spent = s.spent
  rows : s'.entries.filter (fun e => (currentPeriod s.now).start ≤ e.ts) =
    s.entries.filter fun e => (currentPeriod s.now).start ≤ e.ts

theorem SameMonth.verdict {s s' : Stores} (h : SameMonth s s') (p : BudgetParams) :
    s'.verdict p = s.verdict p := by
  have hsum : s'.sumSince p.firmId p.taskClassId (currentPeriod s.now).start =
      s.sumSince p.firmId p.taskClassId (currentPeriod s.now).start := by
    have hsplit : ∀ t : Stores, t.sumSince p.firmId p.taskClassId (currentPeriod s.now).start =
        (((t.entries.filter fun e => (currentPeriod s.now).start ≤ e.ts).filter fun e =>
          e.firmId = p.firmId ∧ e.taskClassId = some p.taskClassId).map Entry.cost).sum := by
      intro t
      unfold sumSince
      rw [List.filter_filter]
      congr 2
      refine List.filter_congr fun e _ => ?_
      simp only [← and_assoc, Bool.decide_and, Bool.and_assoc]
    rw [hsplit, hsplit, h.rows]
  rw [verdict_eq, verdict_eq, h.now, h.spent, hsum]

/-- Rows that are older than the longest month are not of this month. -/
theorem lt_start_of_old {now ts : ℕ} (h : ts + 31 * DAY < now) : ts < (currentPeriod now).start := by
  have hmonth := (Calendar.monthOf_spec (now / DAY)).2
  have hlength := Calendar.monthLength_le (Calendar.monthOf (now / DAY))
  unfold Calendar.firstDay at hmonth
  have hday : now < (now / DAY + 1) * DAY := by
    have := Nat.lt_div_mul_add (a := now) (b := DAY) (by decide)
    rw [Nat.add_mul, Nat.one_mul]
    exact this
  have hlast : now / DAY + 1 ≤ Calendar.firstDay (Calendar.monthOf (now / DAY)) + 31 := by omega
  have hend : now < Calendar.firstDay (Calendar.monthOf (now / DAY)) * DAY + 31 * DAY := by
    calc now < (now / DAY + 1) * DAY := hday
      _ ≤ (Calendar.firstDay (Calendar.monthOf (now / DAY)) + 31) * DAY :=
        Nat.mul_le_mul_right DAY hlast
      _ = _ := Nat.add_mul ..
  show ts < Calendar.firstDay (Calendar.monthOf (now / DAY)) * DAY
  omega

theorem start_mono {now later : ℕ} (h : now ≤ later) :
    (currentPeriod now).start ≤ (currentPeriod later).start := by
  refine Nat.mul_le_mul_right _ (Calendar.firstDay_strictMono.monotone ?_)
  exact Calendar.monthOf_mono (Nat.div_le_div_right h)

/-- **A purge keeps the rows of the current month** if it keeps rows for 31 days. -/
theorem purge_rows {days : ℕ} (hdays : 31 ≤ days) (s : Stores) :
    (s.purge days).entries.filter (fun e => (currentPeriod s.now).start ≤ e.ts) =
      s.entries.filter fun e => (currentPeriod s.now).start ≤ e.ts := by
  unfold purge
  rw [List.filter_filter]
  refine List.filter_congr fun e _ => ?_
  by_cases hmonth : (currentPeriod s.now).start ≤ e.ts
  · have hkept : ¬e.ts + days * DAY < s.now := by
      intro hold
      have hmul := Nat.mul_le_mul_right DAY hdays
      have := lt_start_of_old (by omega : e.ts + 31 * DAY < s.now)
      omega
    simp [hmonth, hkept]
  · simp [hmonth]

theorem SameMonth.purged {s s' : Stores} (h : SameMonth s s') {days : Option ℕ}
    (hdays : ∀ d ∈ days, 31 ≤ d) (active active' : Period → Bool) :
    SameMonth (s.after days active .purge) (s'.after days active' .purge) := by
  cases days with
  | none => exact h
  | some d =>
      have hd := hdays d rfl
      have hrows := purge_rows hd s
      have hrows' := purge_rows hd s'
      rw [h.now] at hrows'
      unfold after
      dsimp only
      split
      · split
        · exact ⟨h.now, h.spent, hrows'.trans (h.rows.trans hrows.symm)⟩
        · exact ⟨h.now, h.spent, h.rows.trans hrows.symm⟩
      · split
        · exact ⟨h.now, h.spent, hrows'.trans h.rows⟩
        · exact h

theorem SameMonth.after {s s' : Stores} (h : SameMonth s s') {days : Option ℕ}
    (hdays : ∀ d ∈ days, 31 ≤ d) (active active' : Period → Bool) (event : LedgerEvent) :
    SameMonth (s.after days active event) (s'.after days active' event) := by
  cases event with
  | wait ms =>
      have hstart := start_mono (Nat.le_add_right s.now ms)
      have hlater : ∀ es : List Entry,
          (es.filter fun e => (currentPeriod s.now).start ≤ e.ts).filter
            (fun e => (currentPeriod (s.now + ms)).start ≤ e.ts) =
          es.filter fun e => (currentPeriod (s.now + ms)).start ≤ e.ts := by
        intro es
        rw [List.filter_filter]
        refine List.filter_congr fun e _ => ?_
        by_cases he : (currentPeriod (s.now + ms)).start ≤ e.ts
        · have := hstart.trans he
          simp [he, this]
        · simp [he]
      refine ⟨congrArg (· + ms) h.now, h.spent, ?_⟩
      show s'.entries.filter (fun e => (currentPeriod (s.now + ms)).start ≤ e.ts) =
        s.entries.filter fun e => (currentPeriod (s.now + ms)).start ≤ e.ts
      rw [← hlater s.entries, ← hlater s'.entries, h.rows]
  | insert e =>
      refine ⟨h.now, h.spent, ?_⟩
      show (e :: s'.entries).filter (fun e => (currentPeriod s.now).start ≤ e.ts) =
        (e :: s.entries).filter fun e => (currentPeriod s.now).start ≤ e.ts
      rw [List.filter_cons, List.filter_cons, h.rows]
  | increment x p amount =>
      refine ⟨h.now, ?_, h.rows⟩
      show (fun y p' => s'.spent y p' + _) = fun y p' => s.spent y p' + _
      rw [h.spent]
  | purge => exact h.purged hdays active active'

theorem SameMonth.run {s s' : Stores} (h : SameMonth s s') {days : Option ℕ}
    (hdays : ∀ d ∈ days, 31 ≤ d) (active active' : Period → Bool) (events : List LedgerEvent) :
    SameMonth (s.run days active events) (s'.run days active' events) := by
  induction events generalizing s s' with
  | nil => exact h
  | cons event events ih => exact ih (h.after hdays active active' event)

end Stores

/-! ### A purge within the month -/

namespace Sample

/-- A row of one cent, written at the start of a month. -/
def firstRow (m : Period) : Entry :=
  { requestId := "r1", firmId, app := "vibe-tb", taskClassId := some taskClassId, userId := none
    modelRequested := none, modelServed := some "claude-sonnet", providerId := some cloudProviderId
    promptTokens := 100, completionTokens := 20, cachedReadTokens := 0, cacheWriteTokens := 0
    costCents := some MICRO, costUnknown := false, costEstimated := false, latencyMs := 80
    status := .ok, engagementRef := none, clientRef := none, requestHash := tokenHash
    ts := m.start, user := none }

/-- The stores `days` days after the start of the month. -/
def monthOn (m : Period) (days : ℕ) : Stores :=
  { entries := [firstRow m], now := m.start + days * DAY + 1 }

/-- A task class with a budget of one cent. -/
def oneCent : BudgetParams :=
  { firmId, app := "vibe-tb", userId := none, taskClassId, settings := {}
    policyMonthlyCents := some 1 }

variable {m : Period} {days : ℕ}

/-- A month of 31 days is the current one for 31 days. -/
theorem currentPeriod_monthOn (hm : Calendar.monthLength m = 31) (h : days ≤ 30) :
    currentPeriod (monthOn m days).now = m := by
  have hday : (m.start + days * DAY + 1) / DAY = Calendar.firstDay m + days := by
    have hstart : m.start = Calendar.firstDay m * DAY := rfl
    have hsmall : 1 / DAY = 0 := by decide
    rw [hstart, ← Nat.add_mul, Nat.add_comm, Nat.add_mul_div_right _ _ (by decide), hsmall,
      Nat.zero_add]
  have hnext : Calendar.firstDay (m + 1) = Calendar.firstDay m + 31 := by
    rw [Calendar.firstDay, hm]
  show Calendar.monthOf ((m.start + days * DAY + 1) / DAY) = m
  rw [hday]
  exact Calendar.monthOf_eq (Nat.le_add_right _ _) (by omega)

theorem sumSince_monthOn (m : Period) (days : ℕ) :
    (monthOn m days).sumSince firmId taskClassId m.start = MICRO := by
  have hkeep : (firstRow m).firmId = firmId ∧ (firstRow m).taskClassId = some taskClassId ∧
      m.start ≤ (firstRow m).ts := ⟨rfl, rfl, le_refl _⟩
  unfold Stores.sumSince monthOn
  rw [List.filter_cons, if_pos (decide_eq_true hkeep)]
  rfl

theorem sumSince_purged (m : Period) (days since : ℕ) :
    ((monthOn m days).purge days).sumSince firmId taskClassId since = 0 := by
  have hold : (firstRow m).ts + days * DAY < (monthOn m days).now := Nat.lt_succ_self _
  have hnone : ((monthOn m days).purge days).entries = [] := by
    unfold Stores.purge
    dsimp only
    rw [List.filter_eq_nil_iff]
    intro e he
    rw [List.mem_singleton.1 he]
    simpa using hold
  unfold Stores.sumSince
  rw [hnone]
  rfl

/-- Only the task class has a limit. -/
theorem verdictOf_oneCent (now : ℕ) (spent : SpendScope → Period → ℤ) (sum : ℤ) :
    Stores.verdictOf oneCent now spent sum = scopeVerdict (currentPeriod now) 80 .task_class
      taskClassId.text (some 1) sum [] := rfl

/-- With the row the budget is spent. -/
theorem verdict_monthOn (hm : Calendar.monthLength m = 31) (h : days ≤ 30) :
    ∃ e, (monthOn m days).verdict oneCent = .error e := by
  have hsum : (monthOn m days).sumSince oneCent.firmId oneCent.taskClassId
      (currentPeriod (monthOn m days).now).start = MICRO := by
    rw [currentPeriod_monthOn hm h]
    exact sumSince_monthOn m days
  have hspent : ((1 : ℕ) : ℤ) * MICRO ≤ MICRO := by decide
  rw [Stores.verdict_eq, verdictOf_oneCent, hsum]
  unfold scopeVerdict
  dsimp only
  rw [if_pos hspent]
  exact ⟨_, rfl⟩

/-- Without it nothing is. -/
theorem verdict_purged (m : Period) (days : ℕ) :
    ((monthOn m days).purge days).verdict oneCent = .ok [] := by
  have hsum : ((monthOn m days).purge days).sumSince oneCent.firmId oneCent.taskClassId
      (currentPeriod ((monthOn m days).purge days).now).start = 0 :=
    sumSince_purged m days _
  have hhard : ¬((1 : ℕ) : ℤ) * MICRO ≤ 0 := by decide
  have hsoft : ¬((1 : ℕ) : ℤ) * MICRO * (80 : ℕ) ≤ 0 * 100 := by decide
  rw [Stores.verdict_eq, verdictOf_oneCent, hsum]
  unfold scopeVerdict
  dsimp only
  rw [if_neg hhard, if_neg hsoft]

end Sample

namespace Stores

/-- The check at the end of a run comes to what it would without the purges of its month. -/
def KeepsSpend (days : Option ℕ) : Prop :=
  ∀ s events p, (run days (fun _ => true) s events).verdict p =
    (run days (fun period => period ≠ currentPeriod (s.clock events)) s events).verdict p

theorem run_purge {days : ℕ} {active : Period → Bool} (s : Stores)
    (h : active (currentPeriod s.now) = true) :
    s.run (some days) active [.purge] = s.purge days := if_pos h

theorem run_no_purge {days : ℕ} {active : Period → Bool} (s : Stores)
    (h : active (currentPeriod s.now) = false) : s.run (some days) active [.purge] = s := by
  have hinactive : ¬active (currentPeriod s.now) = true := by
    rw [h]
    exact Bool.false_ne_true
  exact if_neg hinactive

theorem clock_purge (s : Stores) : s.clock [.purge] = s.now := rfl

theorem not_keepsSpend {days : ℕ} (h : days ≤ 30) : ¬KeepsSpend (some days) := by
  intro hkeeps
  obtain ⟨m, hm⟩ : ∃ m, Calendar.monthLength m = 31 := ⟨0, rfl⟩
  have hsame := hkeeps (Sample.monthOn m days) [.purge] Sample.oneCent
  obtain ⟨e, herror⟩ := Sample.verdict_monthOn hm h
  rw [clock_purge, run_purge _ rfl, run_no_purge _ (decide_eq_false (not_not.2 rfl)),
    Sample.verdict_purged, herror] at hsame
  cases hsame

/-- **Exactly when retention gives no spend back**: when rows are kept for 31 days at least. -/
theorem keepsSpend_iff (days : Option ℕ) : KeepsSpend days ↔ ∀ d ∈ days, 31 ≤ d := by
  constructor
  · intro hkeeps d hd
    by_contra hlt
    rw [hd] at hkeeps
    exact not_keepsSpend (by omega) hkeeps
  · intro hdays s events p
    have hsame : SameMonth s s := ⟨rfl, rfl, rfl⟩
    exact ((hsame.run hdays (fun _ => true) _ events).verdict p).symm

/-- **A retention of a week gives the spend of the month back.** -/
theorem week_gives_back : ¬∀ days : Option ℕ, (∀ d ∈ days, 0 < d) → KeepsSpend days := by
  intro hall
  refine not_keepsSpend (by decide : 7 ≤ 30) (hall (some 7) fun d hd => ?_)
  cases hd
  decide

end Stores

end VibeRouter
