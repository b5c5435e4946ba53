import VibeRouter.Gateway.PipelineSpecs
import VibeRouter.Ledger.Consistent
import VibeRouter.Ledger.Recompute
import VibeRouter.Lib.Pool

/-! # Live costing and the recomputed ledger

The writes of `DbLedger`, interleaved statement by statement with one another and with the prices
that are appended meanwhile.  A write charges the price in effect when its request started, or the
one that another request has looked up within the last minute; `recompute-ledger` charges the
price in effect when the row was written.

`Outdated`: a price has come into effect after the start of the request whose look-up supplied the
price charged, and it charges the usage differently.  `recompute_agrees`: as long as no row is
outdated when it is written, the script changes nothing in any state reached. -/

namespace VibeRouter

open Effects

namespace Repriced

variable {ι : Type} [DecidableEq ι]

/-! ### The tables and the cache -/

/-- The clock, the tables and the price cache of the process.  `asked` is the start of the request
that filled a cache entry, `looked` that of the request whose look-up a write goes by. -/
structure Shared (ι : Type) where
  now : ℕ
  prices : List ModelPricingRow
  rows : List UsageLedgerRow := []
  cache : Uuid → Option (Cached (Option ModelPricingRow)) := fun _ => none
  asked : Uuid → ℕ := fun _ => 0
  looked : ι → ℕ := fun _ => 0

/-- The request a write is for, and the price it has got. -/
structure Session where
  ctx : PipelineCtx
  price : Option (Option ModelPricingRow) := none

namespace Session

def next (q : Session) : (e : Op) → e.Answer → Session
  | .pricingCacheGet _, r => match r with
    | some entry => { q with price := some entry.value }
    | none => q
  | .pricingAt _ _, r => match r with
    | .ok row => { q with price := some row }
    | .error _ => q
  | _, _ => q

/-- The model the request was routed to. -/
def model (q : Session) : Option Uuid := q.ctx.route.map fun route => route.model.id

end Session

namespace Shared

variable (s : Shared ι) (i : ι)

/-- The write `i` goes by a look-up for the time `ts`. -/
def look (ts : ℕ) : Shared ι := { s with looked := Function.update s.looked i ts }

/-- A price in the cache is that of the request that filled the entry. -/
def readCache (modelId : Uuid) : Shared ι :=
  match s.cache modelId with
  | some _ => s.look i (s.asked modelId)
  | none => s

def keep (modelId : Uuid) (entry : Cached (Option ModelPricingRow)) : Shared ι :=
  { s with
    cache := Function.update s.cache modelId (some entry)
    asked := Function.update s.asked modelId (s.looked i) }

/-- `ON CONFLICT DO NOTHING` on the request id. -/
def insert (v : UsageLedgerValues) : Shared ι :=
  if ∃ row ∈ s.rows, row.requestId = v.requestId then s
  else { s with rows := s.rows ++ [⟨v, s.now⟩] }

/-- A price is appended, effective from that moment. -/
def append (price : ModelPricingRow) : Shared ι :=
  { s with now := price.effectiveFrom, prices := s.prices ++ [price] }

/-- The statements of a write. -/
def Handles : (e : Op) → e.Answer → Shared ι → Prop
  | .now, r, s' => r = s.now ∧ s' = s
  | .pricingCacheGet modelId, r, s' => r = s.cache modelId ∧ s' = s.readCache i modelId
  | .pricingCacheSet modelId entry, _, s' => s' = s.keep i modelId entry
  | .pricingAt modelId ts, r, s' => match r with
    | .ok row => FindsPrice s.prices modelId ts row ∧ s' = s.look i ts
    | .error _ => s' = s
  | .insertUsage v, r, s' => match r with
    | .ok inserted => (inserted = true ↔ ∀ row ∈ s.rows, row.requestId ≠ v.requestId) ∧
        s' = s.insert v
    | .error _ => s' = s
  | _, _, s' => s' = s

/-- The row is outdated when it is written: the price of its model in effect charges its usage
differently, and it has come into effect after the start of the request whose look-up supplied
the price charged, or at the same moment as that price. -/
def Outdated (models : List ModelRow) (q : Session) : (e : Op) → e.Answer → Prop
  | .insertUsage v, r => r = .ok true ∧
      ∃ model ∈ models, v.modelServed = some model.canonicalId ∧
        ∃ price, FindsPrice s.prices model.id s.now (some price) ∧
          computeCost v.usage (some price) ≠ v.cost ∧
          (s.looked i ≤ price.effectiveFrom ∨
            ∃ charged, q.price = some (some charged) ∧
              charged.effectiveFrom = price.effectiveFrom)
  | _, _ => False

/-- A price is appended within the millisecond in which a row was written that it charges
differently. -/
def Late (models : List ModelRow) (price : ModelPricingRow) : Prop :=
  ∃ row ∈ s.rows, row.ts = price.effectiveFrom ∧ ∃ model ∈ models, model.id = price.modelId ∧
    row.modelServed = some model.canonicalId ∧ computeCost row.usage (some price) ≠ row.cost

end Shared

/-- The context of a write: a response that some provider is paid for comes from the model the
request was routed to. -/
def ServedBy (models : List ModelRow) (c : PipelineCtx) : Prop :=
  ∀ res, c.response = some res → c.cacheHit = false → ∃ route, c.route = some route ∧
    ∀ model ∈ models, model.canonicalId = res.served.model → model.id = route.model.id

/-- Writes of the ledger, by a name for each. -/
abbrev WriteSystem (ι : Type) : Type :=
  System ι Op Op.Answer (Except Thrown Unit × PipelineCtx) (Shared ι) Session

section

variable (models : List ModelRow)

/-- Any number of writes, in any order of their statements, while time passes and prices are
appended. -/
def writes : WriteSystem ι where
  env := { allows := fun _ _ _ => True, next := Session.next }
  handler i s _ e r s' := s.Handles i e r s'
  start _ s p q := ∃ c, q = { ctx := c } ∧ p = DbLedger.write c ∧ c.startedAt ≤ s.now ∧
    ServedBy models c
  drift s s' := (∃ t, s.now ≤ t ∧ s' = { s with now := t }) ∨
    ∃ price, s.now ≤ price.effectiveFrom ∧ s' = s.append price

/-- The same, as long as no row is outdated. -/
def timely : WriteSystem ι where
  env := (writes (ι := ι) models).env
  handler i s q e r s' := s.Handles i e r s' ∧ ¬s.Outdated i models q e r
  start := (writes models).start
  drift s s' := (∃ t, s.now ≤ t ∧ s' = { s with now := t }) ∨
    ∃ price, s.now ≤ price.effectiveFrom ∧ ¬s.Late models price ∧ s' = s.append price

end

/-! ### What a write does -/

/-- What a write has made sure of before it performs an operation. -/
def Prepared (q : Session) : Op → Prop
  | .pricingCacheGet modelId => q.model = some modelId
  | .pricingAt modelId ts => q.model = some modelId ∧ ts = q.ctx.startedAt
  | .pricingCacheSet modelId entry => q.model = some modelId ∧ q.price = some entry.value
  | .insertUsage v => ∃ auth pricing now,
      v = DbLedger.values q.ctx auth (DbLedger.costOf q.ctx pricing) now ∧
      (DbLedger.billable q.ctx = true → q.model.isSome = true → q.price = some pricing)
  | _ => True

/-- A write relies on nothing. -/
def Rely (_ : Session) (e : Op) (_ : e.Answer) : Prop := True

/-- The surroundings of one write. -/
abbrev view (models : List ModelRow) : Env Op Op.Answer Session :=
  (timely (ι := ι) models).view Rely

variable {models : List ModelRow} {c : PipelineCtx} {q : Session} {u : PipelineCtx}

open Async in
/-- The look-up when there is no price in the cache. -/
def lookPrice (modelId : Uuid) (ts : ℕ) : Async PipelineCtx (Option ModelPricingRow) := do
  let row ← await (op (.pricingAt modelId ts))
  op (.pricingCacheSet modelId ⟨row, (← dateNow) + 60000⟩)
  pure row

open Async in
theorem pricingFor_prepared {modelId : Uuid} (hq : q.model = some modelId) :
    (DbLedger.pricingFor modelId q.ctx.startedAt).wp (view (ι := ι) models) Prepared
      (fun r u' q' => u' = u ∧ q'.ctx = q.ctx ∧ ∀ row, r = .ok row → q'.price = some row) u q := by
  unfold DbLedger.pricingFor
  simp only [Code.wp_bind, wp_op]
  refine ⟨hq, fun hit _ => ?_⟩
  have hlookup : ∀ q' : Session, q'.ctx = q.ctx →
      (lookPrice modelId q.ctx.startedAt).wp (view (ι := ι) models) Prepared
      (fun r u' q'' => u' = u ∧ q''.ctx = q.ctx ∧ ∀ row, r = .ok row → q''.price = some row) u q' := by
    intro q' hq'
    unfold lookPrice
    have hmodel : q'.model = some modelId := by
      unfold Session.model at hq ⊢
      rw [hq']
      exact hq
    simp only [Code.wp_bind, wp_await, wp_op, wp_dateNow]
    refine ⟨⟨hmodel, by rw [hq']⟩, fun r _ => ?_⟩
    cases r with
    | error e => exact ⟨trivial, hq', fun row hrow => by cases hrow⟩
    | ok row =>
        refine ⟨trivial, fun now _ => ⟨⟨hmodel, rfl⟩, fun _ _ => ⟨rfl, hq', fun row' hrow => ?_⟩⟩⟩
        cases hrow
        rfl
  cases hit with
  | none => exact hlookup _ rfl
  | some entry =>
      unfold PolicyEngine.fresh
      simp only [Code.wp_bind, wp_dateNow]
      refine ⟨trivial, fun now _ => ?_⟩
      by_cases hfresh : now < entry.expires
      · simp only [Code.wp_pure, hfresh, if_true]
        refine ⟨trivial, rfl, fun row hrow => ?_⟩
        cases hrow
        rfl
      · simp only [Code.wp_pure, hfresh, if_false]
        exact hlookup _ rfl

/-- The price a request is charged at is the last one the write has got. -/
theorem pricingOf_prepared :
    (DbLedger.pricingOf q.ctx).wp (view (ι := ι) models) Prepared
      (fun r u' q' => u' = u ∧ q'.ctx = q.ctx ∧ ∀ pricing, r = .ok pricing →
        DbLedger.billable q.ctx = true → q.model.isSome = true → q'.price = some pricing) u q := by
  unfold DbLedger.pricingOf
  cases hroute : q.ctx.route with
  | none =>
      refine ⟨rfl, rfl, fun pricing _ _ hmodel => ?_⟩
      unfold Session.model at hmodel
      rw [hroute] at hmodel
      cases hmodel
  | some route =>
      dsimp only
      by_cases hbill : DbLedger.billable q.ctx = true
      · have hmodel : q.model = some route.model.id := by
          unfold Session.model
          rw [hroute]
          rfl
        rw [if_pos hbill]
        refine Code.wp_mono (pricingFor_prepared hmodel) fun r u' q' h => ?_
        exact ⟨h.1, h.2.1, fun pricing hr _ _ => h.2.2 pricing hr⟩
      · rw [if_neg hbill]
        exact ⟨rfl, rfl, fun _ _ hbill' => absurd hbill' hbill⟩

open Async in
theorem incrementAll_prepared (period : Period) (amount : ℤ) (scopes : List (BudgetScope × String)) :
    (incrementAll period amount scopes).wp (view (ι := ι) models) Prepared (fun _ _ _ => True) u q := by
  induction scopes generalizing q with
  | nil => trivial
  | cons scope scopes ih =>
      obtain ⟨scope, ref⟩ := scope
      simp only [incrementAll, Code.wp_bind, wp_await, wp_op]
      refine ⟨trivial, fun r _ => ?_⟩
      cases r with
      | error e => trivial
      | ok _ => exact ih

open Async in
theorem recordSpend_prepared (firmId : Uuid) (app : String) (userId : Option String) (cost : ℤ) :
    (recordSpend firmId app userId cost).wp (view (ι := ι) models) Prepared (fun _ _ _ => True)
      u q := by
  unfold recordSpend
  split
  · trivial
  · simp only [Code.wp_bind, wp_dateNow]
    exact ⟨trivial, fun now _ => incrementAll_prepared _ _ _⟩

open Async in
theorem insertRow_prepared (auth : AuthContext) {pricing : Option ModelPricingRow}
    (hq : DbLedger.billable q.ctx = true → q.model.isSome = true → q.price = some pricing) :
    (DbLedger.insertRow q.ctx auth pricing).wp (view (ι := ι) models) Prepared
      (fun _ _ _ => True) u q := by
  unfold DbLedger.insertRow
  simp only [Code.wp_bind, wp_await, wp_op, wp_dateNow]
  refine ⟨trivial, fun now _ => ⟨⟨auth, pricing, now, rfl, hq⟩, fun r _ => ?_⟩⟩
  cases r with
  | error e => trivial
  | ok inserted =>
      dsimp only
      split
      · split
        · exact recordSpend_prepared _ _ _ _
        · trivial
      · trivial

/-- **A write charges the price it has got.** -/
theorem write_prepared (hq : q.ctx = c) :
    (DbLedger.write c).wp ((timely (ι := ι) models).view Rely) Prepared (fun _ _ => True) q := by
  have hwrite : (DbLedger.writeCtx c).wp (view (ι := ι) models) Prepared (fun _ _ _ => True) c q := by
    unfold DbLedger.writeCtx
    cases c.auth with
    | none => trivial
    | some auth =>
        dsimp only
        rw [Code.wp_bind, ← hq]
        refine Code.wp_mono pricingOf_prepared fun r u' q' h => ?_
        obtain ⟨-, hctx, hprice⟩ := h
        cases r with
        | error e => trivial
        | ok pricing =>
            have hmodel : q'.model = q.model := by
              unfold Session.model
              rw [hctx]
            dsimp only
            rw [← hctx]
            refine insertRow_prepared auth fun hbill hsome => ?_
            rw [hctx] at hbill
            rw [hmodel] at hsome
            exact hprice pricing rfl hbill hsome
  exact hwrite

/-! ### What is known of a price -/

/-- What a look-up for the time `ts` has found, as prices come into effect later. -/
def Known (prices : List ModelPricingRow) (modelId : Uuid) (ts : ℕ) :
    Option ModelPricingRow → Prop
  | none => ∀ p ∈ prices, p.modelId = modelId → ts ≤ p.effectiveFrom
  | some row => row ∈ prices ∧ ∀ p ∈ prices, p.modelId = modelId →
      p.effectiveFrom ≤ row.effectiveFrom ∨ ts ≤ p.effectiveFrom

variable {prices : List ModelPricingRow} {modelId : Uuid} {ts : ℕ}

theorem known_of_finds {pricing : Option ModelPricingRow} (h : FindsPrice prices modelId ts pricing) :
    Known prices modelId ts pricing := by
  cases pricing with
  | none => exact fun p hp hmodel => (h p hp hmodel).le
  | some row =>
      obtain ⟨hrow, -, -, hmax⟩ := h
      refine ⟨hrow, fun p hp hmodel => ?_⟩
      by_cases hle : p.effectiveFrom ≤ ts
      · exact Or.inl (hmax p hp hmodel hle)
      · exact Or.inr (by omega)

/-- A price that comes into effect later changes nothing. -/
theorem Known.append {pricing : Option ModelPricingRow} {price : ModelPricingRow}
    (h : Known prices modelId ts pricing) (hle : ts ≤ price.effectiveFrom) :
    Known (prices ++ [price]) modelId ts pricing := by
  cases pricing with
  | none =>
      intro p hp hmodel
      rcases List.mem_append.1 hp with hp | hp
      · exact h p hp hmodel
      · rw [List.mem_singleton.1 hp]
        exact hle
  | some row =>
      refine ⟨List.mem_append_left _ h.1, fun p hp hmodel => ?_⟩
      rcases List.mem_append.1 hp with hp | hp
      · exact h.2 p hp hmodel
      · rw [List.mem_singleton.1 hp]
        exact Or.inr hle

/-- Another price than the one charged is in effect only where it came after the look-up, or with
the price charged. -/
theorem Known.finds {pricing : Option ModelPricingRow} {now : ℕ} {found : Option ModelPricingRow}
    (h : Known prices modelId ts pricing) (hnow : ∀ p ∈ prices, p.effectiveFrom ≤ now)
    (hmodel : ∀ row, pricing = some row → row.modelId = modelId)
    (hfound : FindsPrice prices modelId now found) :
    found = pricing ∨ ∃ price, found = some price ∧ (ts ≤ price.effectiveFrom ∨
      ∃ charged, pricing = some charged ∧ charged.effectiveFrom = price.effectiveFrom) := by
  cases found with
  | none =>
      cases pricing with
      | none => exact Or.inl rfl
      | some row =>
          have hlt := hfound row h.1 (hmodel row rfl)
          have hle := hnow row h.1
          omega
  | some price =>
      obtain ⟨hprice, hpmodel, -, hmax⟩ := hfound
      refine Or.inr ⟨price, rfl, ?_⟩
      cases pricing with
      | none => exact Or.inl (h price hprice hpmodel)
      | some row =>
          rcases h.2 price hprice hpmodel with hle | hle
          · have hrow := hmax row h.1 (hmodel row rfl) (hnow row h.1)
            exact Or.inr ⟨row, rfl, by omega⟩
          · exact Or.inl hle

/-! ### The invariant -/

/-- The clock is ahead of the tables and the cache, and every row is settled. -/
structure Tidy (models : List ModelRow) (s : Shared ι) : Prop where
  effective : ∀ p ∈ s.prices, p.effectiveFrom ≤ s.now
  written : ∀ row ∈ s.rows, row.ts ≤ s.now
  settled : ∀ row ∈ s.rows, Settled models s.prices row
  asked : ∀ m entry, s.cache m = some entry → s.asked m ≤ s.now ∧
    Known s.prices m (s.asked m) entry.value ∧ ∀ row, entry.value = some row → row.modelId = m

/-- What a write knows of the price it has got. -/
structure Knows (models : List ModelRow) (s : Shared ι) (i : ι) (q : Session) : Prop where
  started : q.ctx.startedAt ≤ s.now
  served : ServedBy models q.ctx
  looked : ∀ m pricing, q.model = some m → q.price = some pricing → s.looked i ≤ s.now ∧
    Known s.prices m (s.looked i) pricing ∧ ∀ row, pricing = some row → row.modelId = m

/-- What holds of every reachable state. -/
def Holds (models : List ModelRow) (s : Shared ι) (L : ι → Option Session) : Prop :=
  Tidy models s ∧ ∀ i q, L i = some q → Knows models s i q

variable {s s' : Shared ι} {i j : ι} {L : ι → Option Session}

theorem settled_append {row : UsageLedgerRow} {price : ModelPricingRow}
    (h : Settled models prices row) (hle : row.ts ≤ price.effectiveFrom)
    (hlate : row.ts = price.effectiveFrom → ∀ model ∈ models, model.id = price.modelId →
      row.modelServed = some model.canonicalId → computeCost row.usage (some price) = row.cost) :
    Settled models (prices ++ [price]) row := by
  intro model hmodel hserved pricing hfinds
  cases pricing with
  | none =>
      exact h model hmodel hserved none fun p hp => hfinds p (List.mem_append_left _ hp)
  | some found =>
      obtain ⟨hfound, hid, hts, hmax⟩ := hfinds
      rcases List.mem_append.1 hfound with hfound | hfound
      · exact h model hmodel hserved (some found)
          ⟨hfound, hid, hts, fun p hp => hmax p (List.mem_append_left _ hp)⟩
      · rw [List.mem_singleton.1 hfound] at hid hts ⊢
        exact hlate (by omega) model hmodel hid.symm hserved

omit [DecidableEq ι] in
/-- Time passes. -/
theorem Holds.pass {t : ℕ} (h : Holds models s L) (ht : s.now ≤ t) :
    Holds models { s with now := t } L := by
  refine ⟨⟨?_, ?_, h.1.settled, ?_⟩, fun i q hi => ?_⟩
  · exact fun p hp => (h.1.effective p hp).trans ht
  · exact fun row hrow => (h.1.written row hrow).trans ht
  · intro m entry hentry
    obtain ⟨hasked, hrest⟩ := h.1.asked m entry hentry
    exact ⟨hasked.trans ht, hrest⟩
  · have hk := h.2 i q hi
    refine ⟨hk.started.trans ht, hk.served, fun m pricing hm hpricing => ?_⟩
    obtain ⟨hlooked, hrest⟩ := hk.looked m pricing hm hpricing
    exact ⟨hlooked.trans ht, hrest⟩

omit [DecidableEq ι] in
/-- A price is appended. -/
theorem Holds.append {price : ModelPricingRow} (h : Holds models s L)
    (ht : s.now ≤ price.effectiveFrom) (hlate : ¬s.Late models price) :
    Holds models (s.append price) L := by
  refine ⟨⟨?_, ?_, ?_, ?_⟩, fun i q hi => ?_⟩
  · intro p hp
    rcases List.mem_append.1 hp with hp | hp
    · exact (h.1.effective p hp).trans ht
    · rw [List.mem_singleton.1 hp]
      exact le_refl _
  · exact fun row hrow => (h.1.written row hrow).trans ht
  · intro row hrow
    refine settled_append (h.1.settled row hrow) ((h.1.written row hrow).trans ht) ?_
    intro hts model hmodel hid hserved
    by_contra hcost
    exact hlate ⟨row, hrow, hts, model, hmodel, hid, hserved, hcost⟩
  · intro m entry hentry
    obtain ⟨hasked, hknown, hid⟩ := h.1.asked m entry hentry
    exact ⟨hasked.trans ht, hknown.append (hasked.trans ht), hid⟩
  · have hk := h.2 i q hi
    refine ⟨hk.started.trans ht, hk.served, fun m pricing hm hpricing => ?_⟩
    obtain ⟨hlooked, hknown, hid⟩ := hk.looked m pricing hm hpricing
    exact ⟨hlooked.trans ht, hknown.append (hlooked.trans ht), hid⟩

theorem getD_centsFor_zero (rate : Option ℤ) : (centsFor 0 rate).getD 0 = 0 := by
  cases rate <;> simp [centsFor]

/-- Nothing is charged for no tokens. -/
theorem computeCost_empty (pricing : Option ModelPricingRow) :
    computeCost EMPTY_USAGE pricing = ⟨some 0, false⟩ := by
  cases pricing with
  | none => simp [computeCost, EMPTY_USAGE]
  | some price =>
      have hzero : toFixed6 0 = 0 := by decide +kernel
      simp [computeCost, EMPTY_USAGE, getD_centsFor_zero, hzero]

theorem usage_values (auth : AuthContext) (cost : CostResult) (now : ℕ) :
    (DbLedger.values c auth cost now).usage = DbLedger.usageOf c := rfl

theorem cost_values (auth : AuthContext) (cost : CostResult) (now : ℕ) :
    (DbLedger.values c auth cost now).cost = cost := rfl

omit [DecidableEq ι] in
/-- **A row that is not outdated is settled.** -/
theorem inserted_settled {v : UsageLedgerValues} (hs : Tidy models s) (hk : Knows models s i q)
    (hprep : Prepared q (.insertUsage v))
    (hcalm : ¬s.Outdated i models q (.insertUsage v) (.ok true)) :
    Settled models s.prices ⟨v, s.now⟩ := by
  intro model hmodel hserved pricing hfinds
  replace hfinds : FindsPrice s.prices model.id s.now pricing := hfinds
  obtain ⟨auth, charged, now, rfl, hcharged⟩ := hprep
  replace hserved : q.ctx.response.map (fun res => res.served.model) = some model.canonicalId := hserved
  obtain ⟨res, hres, hcanonical⟩ := Option.map_eq_some_iff.1 hserved
  show computeCost (DbLedger.usageOf q.ctx) pricing = DbLedger.costOf q.ctx charged
  cases hhit : q.ctx.cacheHit with
  | true =>
      have husage : DbLedger.usageOf q.ctx = EMPTY_USAGE := by
        unfold DbLedger.usageOf
        rw [if_pos hhit]
      have hcost : DbLedger.costOf q.ctx charged = ⟨some 0, false⟩ := by
        unfold DbLedger.costOf DbLedger.billable
        rw [hhit]
        simp
      rw [husage, hcost, computeCost_empty]
  | false =>
      have hbill : DbLedger.billable q.ctx = true := by
        unfold DbLedger.billable
        rw [hhit, hres]
        rfl
      have hcost : DbLedger.costOf q.ctx charged =
          computeCost (DbLedger.usageOf q.ctx) charged := by
        unfold DbLedger.costOf
        rw [if_pos hbill]
      obtain ⟨route, hroute, hid⟩ := hk.served res hres hhit
      have hroutemodel : q.model = some route.model.id := by
        unfold Session.model
        rw [hroute]
        rfl
      have hprice := hcharged hbill (by rw [hroutemodel]; rfl)
      obtain ⟨-, hknown, hown⟩ := hk.looked _ _ hroutemodel hprice
      rw [hid model hmodel hcanonical.symm] at hfinds
      rw [hcost]
      rcases hknown.finds hs.effective hown hfinds with rfl | ⟨price, rfl, hlater⟩
      · rfl
      · by_contra hne
        have hother : s.looked i ≤ price.effectiveFrom ∨ ∃ row, q.price = some (some row) ∧
            row.effectiveFrom = price.effectiveFrom := by
          rcases hlater with hle | ⟨row, hrow, heq⟩
          · exact Or.inl hle
          · exact Or.inr ⟨row, by rw [hprice, hrow], heq⟩
        refine hcalm ⟨rfl, model, hmodel, hserved, price, ?_, ?_, hother⟩
        · rw [hid model hmodel hcanonical.symm]
          exact hfinds
        · rw [usage_values, cost_values, hcost]
          exact hne

/-- A step that leaves the tables and the look-ups of the other writes as they are. -/
theorem Holds.local {q' : Session} (h : Holds models s L) (hknows : Knows models s i q') :
    Holds models s (Function.update L i (some q')) := by
  refine ⟨h.1, fun j qj hj => ?_⟩
  by_cases hji : j = i
  · subst hji
    rw [Function.update_self, Option.some.injEq] at hj
    rw [← hj]
    exact hknows
  · rw [Function.update_of_ne hji] at hj
    exact h.2 j qj hj

/-- The write `i` goes by another look-up. -/
theorem Holds.look {t : ℕ} {q' : Session} (h : Holds models s L)
    (hknows : Knows models (s.look i t) i q') :
    Holds models (s.look i t) (Function.update L i (some q')) := by
  refine ⟨⟨h.1.effective, h.1.written, h.1.settled, h.1.asked⟩, fun j qj hj => ?_⟩
  by_cases hji : j = i
  · subst hji
    rw [Function.update_self, Option.some.injEq] at hj
    rw [← hj]
    exact hknows
  · rw [Function.update_of_ne hji] at hj
    have hk := h.2 j qj hj
    refine ⟨hk.started, hk.served, fun m pricing hm hpricing => ?_⟩
    have hsame : (s.look i t).looked j = s.looked j := Function.update_of_ne hji ..
    rw [hsame]
    exact hk.looked m pricing hm hpricing

/-- The step in which a write finds a price. -/
theorem Holds.finds {t : ℕ} {m : Uuid} {pricing : Option ModelPricingRow} (h : Holds models s L)
    (hi : L i = some q) (hm : q.model = some m) (ht : t ≤ s.now) (hknown : Known s.prices m t pricing)
    (hown : ∀ row, pricing = some row → row.modelId = m) :
    Holds models (s.look i t) (Function.update L i (some { q with price := some pricing })) := by
  have hk := h.2 i q hi
  refine h.look ⟨hk.started, hk.served, fun m' pricing' hm' hpricing' => ?_⟩
  replace hm' : q.model = some m' := hm'
  rw [hm] at hm'
  cases hm'
  cases hpricing'
  have hself : (s.look i t).looked i = t := Function.update_self ..
  rw [hself]
  exact ⟨ht, hknown, hown⟩

omit [DecidableEq ι] in
theorem Holds.keep {m : Uuid} {entry : Cached (Option ModelPricingRow)} (h : Holds models s L)
    (hi : L i = some q) (hm : q.model = some m) (hprice : q.price = some entry.value) :
    Holds models (s.keep i m entry) L := by
  refine ⟨⟨h.1.effective, h.1.written, h.1.settled, fun m' entry' hentry => ?_⟩, fun j qj hj => ?_⟩
  · by_cases hmm : m' = m
    · subst hmm
      have hself : (s.keep i m' entry).asked m' = s.looked i := Function.update_self ..
      replace hentry : Function.update s.cache m' (some entry) m' = some entry' := hentry
      rw [Function.update_self] at hentry
      cases hentry
      rw [hself]
      exact (h.2 i q hi).looked m' entry.value hm hprice
    · have hother : (s.keep i m entry).asked m' = s.asked m' := Function.update_of_ne hmm ..
      replace hentry : Function.update s.cache m (some entry) m' = some entry' := hentry
      rw [Function.update_of_ne hmm] at hentry
      rw [hother]
      exact h.1.asked m' entry' hentry
  · have hk := h.2 j qj hj
    exact ⟨hk.started, hk.served, hk.looked⟩

omit [DecidableEq ι] in
theorem Holds.insert {v : UsageLedgerValues} (h : Holds models s L)
    (hsettled : Settled models s.prices ⟨v, s.now⟩) : Holds models (s.insert v) L := by
  unfold Shared.insert
  split
  · exact h
  · refine ⟨⟨h.1.effective, fun row hrow => ?_, fun row hrow => ?_, h.1.asked⟩, fun j qj hj => ?_⟩
    · rcases List.mem_append.1 hrow with hrow | hrow
      · exact h.1.written row hrow
      · rw [List.mem_singleton.1 hrow]
    · rcases List.mem_append.1 hrow with hrow | hrow
      · exact h.1.settled row hrow
      · rw [List.mem_singleton.1 hrow]
        exact hsettled
    · have hk := h.2 j qj hj
      exact ⟨hk.started, hk.served, hk.looked⟩

omit [DecidableEq ι] in
theorem finds_own {pricing : Option ModelPricingRow} (h : FindsPrice prices modelId ts pricing) :
    ∀ row, pricing = some row → row.modelId = modelId := by
  intro row hrow
  rw [hrow] at h
  exact h.2.1

/-- **Every statement of a write keeps the rows settled.** -/
theorem holds_act {e : Op} {r : e.Answer} (h : Holds models s L) (hi : L i = some q)
    (hprep : Prepared q e) (hhandles : s.Handles i e r s') (hcalm : ¬s.Outdated i models q e r) :
    Holds models s' (Function.update L i (some (q.next e r))) := by
  have hk := h.2 i q hi
  cases e with
  | pricingCacheGet m =>
      obtain ⟨hr, rfl⟩ := hhandles
      unfold Shared.readCache
      rw [← hr]
      cases r with
      | none => exact h.local hk
      | some entry =>
          obtain ⟨hasked, hknown, hown⟩ := h.1.asked m entry hr.symm
          exact h.finds hi hprep hasked hknown hown
  | pricingCacheSet m entry =>
      replace hhandles : s' = s.keep i m entry := hhandles
      rw [hhandles]
      have hkeep := h.keep hi hprep.1 hprep.2
      exact hkeep.local (hkeep.2 i q hi)
  | pricingAt m t =>
      cases r with
      | error e =>
          replace hhandles : s' = s := hhandles
          rw [hhandles]
          exact h.local hk
      | ok row =>
          obtain ⟨hfinds, rfl⟩ := hhandles
          obtain ⟨hm, rfl⟩ := hprep
          exact h.finds hi hm hk.started (known_of_finds hfinds) (finds_own hfinds)
  | insertUsage v =>
      cases r with
      | error e =>
          replace hhandles : s' = s := hhandles
          rw [hhandles]
          exact h.local hk
      | ok inserted =>
          obtain ⟨hinserted, rfl⟩ := hhandles
          cases inserted with
          | true =>
              have hinsert := h.insert (inserted_settled h.1 hk hprep hcalm)
              exact hinsert.local (hinsert.2 i q hi)
          | false =>
              have hsame : s.insert v = s := by
                refine if_pos ?_
                by_contra hnone
                push Not at hnone
                exact Bool.false_ne_true (hinserted.2 hnone)
              rw [hsame]
              exact h.local hk
  | now =>
      obtain ⟨-, rfl⟩ := hhandles
      exact h.local hk
  | _ =>
      obtain rfl := hhandles
      exact h.local hk

theorem timely_preserves :
    System.Preserves (timely (ι := ι) models) Rely Prepared (fun _ _ => True) (Holds models) where
  start_wp := by
    intro i s p q hstart
    obtain ⟨c, rfl, rfl, -⟩ := hstart
    exact write_prepared rfl
  spawn := by
    intro i s L p q h hi hstart
    obtain ⟨c, rfl, -, hstarted, hserved⟩ := hstart
    exact h.local ⟨hstarted, hserved, fun m pricing _ hpricing => by cases hpricing⟩
  rely := fun _ _ _ _ _ _ _ _ _ _ _ => trivial
  act := fun i s L q e r s' h hi hprep _ hhandles =>
    holds_act h hi hprep hhandles.1 hhandles.2
  drift := by
    intro s s' L h hdrift
    rcases hdrift with ⟨t, ht, rfl⟩ | ⟨price, ht, hlate, rfl⟩
    · exact h.pass ht
    · exact h.append ht hlate

/-! ### Main result -/

/-- **The ledger recomputes to itself, as long as no row is outdated.**  In every state that writes
and appended prices reach without an outdated row, the script `recompute-ledger` changes nothing,
whatever part of the ledger it is run on and wherever it is stopped. -/
theorem recompute_agrees {start : ℕ} {prices : List ModelPricingRow}
    (hprices : ∀ p ∈ prices, p.effectiveFrom ≤ start)
    {P : Pool ι Op Op.Answer (Except Thrown Unit × PipelineCtx) (Shared ι) Session}
    (hP : (timely models).Reachable { now := start, prices := prices } P)
    {args : RecomputeArgs} {rows : List UsageLedgerRow}
    (hrun : Recomputes models P.shared.prices args P.shared.rows rows) : rows = P.shared.rows := by
  have hstart : Holds models ({ now := start, prices := prices } : Shared ι) fun _ => none := by
    refine ⟨⟨hprices, fun row hrow => ?_, fun row hrow => ?_, fun m entry hentry => ?_⟩,
      fun i q hi => ?_⟩
    · cases hrow
    · cases hrow
    · cases hentry
    · cases hi
  have hinv := System.invariant timely_preserves hstart hP
  exact recompute_settled hinv.1.1.settled hrun

/-! ### Samples -/

namespace Sample

open VibeRouter.Sample

def catalog : List ModelRow := [cloudModel, localModel]

/-- The cloud model becomes dearer. -/
def dearer : ModelPricingRow := ⟨cloudModelId, 5, some 6000000, some 30000000, none, none⟩

def opening : Shared ℕ where
  now := 0
  prices := [cloudPrices]

theorem billed_served : ServedBy catalog billed := by
  intro res hres _
  cases hres
  refine ⟨_, rfl, fun model hmodel hid => ?_⟩
  rcases List.mem_cons.1 hmodel with rfl | hmodel
  · rfl
  · rw [List.mem_singleton.1 hmodel] at hid
    exact absurd hid (by decide)

/-- Surroundings that find what there is; `accepts` says which rows the database takes. -/
def answer (accepts : Shared ℕ → UsageLedgerValues → Bool) (i : ℕ) (s : Shared ℕ) (_ : Session) :
    (e : Op) → e.Answer × Shared ℕ
  | .now => (s.now, s)
  | .pricingCacheGet m => (s.cache m, s.readCache i m)
  | .pricingCacheSet m entry => ((), s.keep i m entry)
  | .pricingAt m t => (.ok (({ modelPricing := s.prices } : Tables).pricingAt m t), s.look i t)
  | .insertUsage v =>
      if accepts s v then
        (.ok (decide (∀ row ∈ s.rows, row.requestId ≠ v.requestId)), s.insert v)
      else (.error (.error "refused"), s)
  | e => (e.calm, s)

theorem answer_handles (accepts : Shared ℕ → UsageLedgerValues → Bool) (i : ℕ) (s : Shared ℕ)
    (q : Session) (e : Op) :
    s.Handles i e (answer accepts i s q e).1 (answer accepts i s q e).2 := by
  cases e with
  | pricingCacheGet m => exact ⟨rfl, rfl⟩
  | pricingAt m t => exact ⟨Tables.finds_pricingAt { modelPricing := s.prices } m t, rfl⟩
  | now => exact ⟨rfl, rfl⟩
  | insertUsage v =>
      unfold answer
      by_cases haccepts : accepts s v = true
      · simp only [haccepts, if_true]
        exact ⟨decide_eq_true_iff, rfl⟩
      · simp only [haccepts]
        rfl
  | _ => rfl

/-- A row for a model with one price is not outdated. -/
def priced (s : Shared ℕ) (v : UsageLedgerValues) : Bool :=
  s.prices.all (· = cloudPrices) && decide (v.cost = computeCost v.usage (some cloudPrices))

theorem priced_sound : System.Sound (timely (ι := ℕ) catalog) (answer priced) := by
  intro i s q e
  refine ⟨trivial, answer_handles priced i s q e, ?_⟩
  cases e with
  | insertUsage v =>
      intro houtdated
      obtain ⟨hok, model, -, -, price, hfinds, hcost, -⟩ := houtdated
      by_cases hpriced : priced s v = true
      · unfold priced at hpriced
        rw [Bool.and_eq_true, List.all_eq_true, decide_eq_true_eq] at hpriced
        have hprice := of_decide_eq_true (hpriced.1 price hfinds.1)
        rw [hprice] at hcost
        exact hcost hpriced.2.symm
      · unfold answer at hok
        simp only [hpriced] at hok
        cases hok
  | _ => exact fun h => h

/-- What a schedule makes of the opening. -/
def runFrom (accepts : Shared ℕ → UsageLedgerValues → Bool)
    (as : List (Action ℕ Op Op.Answer (Except Thrown Unit × PipelineCtx) (Shared ℕ) Session)) :
    Pool ℕ Op Op.Answer (Except Thrown Unit × PipelineCtx) (Shared ℕ) Session :=
  (System.initial opening : Pool ..).exec Session.next (answer accepts) as

/-- The price rises between the start of a request and its row. -/
def risen : List (Action ℕ Op Op.Answer (Except Thrown Unit × PipelineCtx) (Shared ℕ) Session) :=
  [.spawn 0 (DbLedger.write billed) { ctx := billed }, .drift fun s => s.append dearer, .run 0 9]

/-- The price rises after the row has been written. -/
def steady : List (Action ℕ Op Op.Answer (Except Thrown Unit × PipelineCtx) (Shared ℕ) Session) :=
  [.spawn 0 (DbLedger.write billed) { ctx := billed }, .run 0 9, .drift fun s => s.append dearer]

/-- A database that finds the latest prices. -/
def recomputeAnswer (prices : List ModelPricingRow) (db : List UsageLedgerRow) :
    (e : RecomputeOp) → e.Answer × List UsageLedgerRow
  | .findLedger since until_ => (db.filter (RecomputeOp.between since until_), db)
  | .findModels => (catalog, db)
  | .pricingAt m t => (({ modelPricing := prices } : Tables).pricingAt m t, db)
  | .update key cost =>
      ((), Rows.update UsageLedgerRow.key key (UsageLedgerRow.setCost cost) db)

/-- The ledger after the script. -/
def recomputed (prices : List ModelPricingRow) (db : List UsageLedgerRow) : List UsageLedgerRow :=
  ((recomputeLedger {} ()).eval (recomputeAnswer prices) db).2

theorem recomputes_recomputed (prices : List ModelPricingRow) (db : List UsageLedgerRow) :
    Recomputes catalog prices {} db (recomputed prices db) := by
  refine ⟨_, Prog.run_eval (fun q e => ?_) _ _⟩
  cases e with
  | findLedger since until_ => exact ⟨List.Perm.refl _, rfl⟩
  | findModels => exact ⟨List.Perm.refl _, rfl⟩
  | pricingAt m t => exact ⟨Tables.finds_pricingAt { modelPricing := prices } m t, rfl⟩
  | update key cost => exact ⟨trivial, rfl⟩

theorem risen_costs :
    (runFrom (fun _ _ => true) risen).shared.rows.map (fun row => row.costCents) = [some 2400] ∧
      (recomputed (runFrom (fun _ _ => true) risen).shared.prices
        (runFrom (fun _ _ => true) risen).shared.rows).map (fun row => row.costCents) =
        [some 4800] := by
  decide +kernel

/-- **A row whose price rose while its request ran is recomputed to another cost.** -/
theorem recompute_changes_cost :
    ¬∀ P, (writes (ι := ℕ) catalog).Reachable opening P → ∀ rows,
      Recomputes catalog P.shared.prices {} P.shared.rows rows → rows = P.shared.rows := by
  intro hall
  have hsound : System.Sound (writes (ι := ℕ) catalog) (answer fun _ _ => true) :=
    fun i s q e => ⟨trivial, answer_handles _ i s q e⟩
  have hreach : (writes (ι := ℕ) catalog).Reachable opening (runFrom (fun _ _ => true) risen) := by
    refine System.reachable_exec hsound .refl ?_
    exact ⟨rfl, ⟨billed, rfl, rfl, le_refl _, billed_served⟩, Or.inr ⟨dearer, by decide, rfl⟩, trivial⟩
  have hsame := hall _ hreach _ (recomputes_recomputed _ _)
  have hcosts := congrArg (List.map fun row : UsageLedgerRow => row.costCents) hsame
  rw [risen_costs.1, risen_costs.2] at hcosts
  exact absurd hcosts (by decide)

theorem steady_rows :
    (runFrom priced steady).shared.rows.map (fun row => (row.costCents, row.ts)) =
      [(some 2400, 0)] := by
  decide +kernel

/-- A row that was written before the price rose keeps its cost. -/
theorem sample_recompute_agrees : ∃ P, (timely (ι := ℕ) catalog).Reachable opening P ∧
    P.shared.rows.map (fun row => (row.costCents, row.ts)) = [(some 2400, 0)] ∧
    ∀ args rows, Recomputes catalog P.shared.prices args P.shared.rows rows →
      rows = P.shared.rows := by
  have hprices : ∀ p ∈ [cloudPrices], p.effectiveFrom ≤ 0 := by decide
  have hreach : (timely (ι := ℕ) catalog).Reachable opening (runFrom priced steady) := by
    refine System.reachable_exec priced_sound .refl ?_
    refine ⟨rfl, ⟨billed, rfl, rfl, le_refl _, billed_served⟩,
      Or.inr ⟨dearer, by decide +kernel, ?_, rfl⟩, trivial⟩
    intro hlate
    obtain ⟨row, hrow, hts, -⟩ := hlate
    have hmem := List.mem_map_of_mem (f := fun row : UsageLedgerRow => (row.costCents, row.ts)) hrow
    replace hmem : (row.costCents, row.ts) ∈ (runFrom priced steady).shared.rows.map
      fun row => (row.costCents, row.ts) := hmem
    rw [steady_rows, hts] at hmem
    simp [dearer] at hmem
  exact ⟨_, hreach, steady_rows, fun args rows hrun => recompute_agrees hprices hreach hrun⟩

end Sample

end Repriced

end VibeRouter
