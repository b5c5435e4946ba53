import VibeRouter.Db.Tables
import VibeRouter.Ledger.Cost
import VibeRouter.Lib.Code
import VibeRouter.Lib.JsMap
import VibeRouter.Lib.Rows

/-! # Recomputing the ledger

The script `recompute-ledger`: the cost of every row is computed again from its token counts, at
the price in effect when the row was written.  `recompute_unchanged`: where every price in effect
at the time of a row gives the cost the row has, the script changes nothing, wherever it is
stopped. -/

namespace VibeRouter

open Effects

/-! ### The price in effect -/

/-- The answers to `findFirst` for the price of a model in effect at `ts`: there is no order
among prices effective from one moment. -/
def FindsPrice (prices : List ModelPricingRow) (modelId : Uuid) (ts : ℕ) :
    Option ModelPricingRow → Prop
  | none => ∀ p ∈ prices, p.modelId = modelId → ts < p.effectiveFrom
  | some row => row ∈ prices ∧ row.modelId = modelId ∧ row.effectiveFrom ≤ ts ∧
      ∀ p ∈ prices, p.modelId = modelId → p.effectiveFrom ≤ ts →
        p.effectiveFrom ≤ row.effectiveFrom

/-- The latest of a list of prices. -/
theorem foldl_later (rows : List ModelPricingRow) (best : Option ModelPricingRow) :
    (rows.foldl Tables.later best = none ∧ rows = [] ∧ best = none) ∨
    ∃ row, rows.foldl Tables.later best = some row ∧ (row ∈ rows ∨ best = some row) ∧
      ∀ p, p ∈ rows ∨ best = some p → p.effectiveFrom ≤ row.effectiveFrom := by
  induction rows generalizing best with
  | nil =>
      cases best with
      | none => exact Or.inl ⟨rfl, rfl, rfl⟩
      | some b =>
          refine Or.inr ⟨b, rfl, Or.inr rfl, ?_⟩
          intro p hp
          rcases hp with hp | hp
          · cases hp
          · cases hp
            exact le_refl _
  | cons r rows ih =>
      have hstep : ∃ b, Tables.later best r = some b ∧ (b = r ∨ best = some b) ∧
          r.effectiveFrom ≤ b.effectiveFrom ∧
          ∀ p, best = some p → p.effectiveFrom ≤ b.effectiveFrom := by
        cases best with
        | none => exact ⟨r, rfl, Or.inl rfl, le_refl _, fun p hp => by cases hp⟩
        | some b =>
            by_cases hlt : b.effectiveFrom < r.effectiveFrom
            · refine ⟨r, if_pos hlt, Or.inl rfl, le_refl _, fun p hp => ?_⟩
              cases hp
              exact hlt.le
            · refine ⟨b, if_neg hlt, Or.inr rfl, by omega, fun p hp => ?_⟩
              cases hp
              exact le_refl _
      obtain ⟨b, hb, hfrom, hr, hbest⟩ := hstep
      rw [List.foldl_cons, hb]
      obtain ⟨-, -, hnone⟩ | ⟨row, hrow, hmem, hmax⟩ := ih (some b)
      · cases hnone
      · have hbrow := hmax b (Or.inr rfl)
        refine Or.inr ⟨row, hrow, ?_, ?_⟩
        · rcases hmem with hmem | hmem
          · exact Or.inl (List.mem_cons_of_mem _ hmem)
          · cases hmem
            rcases hfrom with rfl | hfrom
            · exact Or.inl (List.mem_cons_self ..)
            · exact Or.inr hfrom
        · intro p hp
          rcases hp with hp | hp
          · rcases List.mem_cons.1 hp with rfl | hp
            · omega
            · exact hmax p (Or.inl hp)
          · have := hbest p hp
            omega

/-- The query finds a price in effect. -/
theorem Tables.finds_pricingAt (t : Tables) (modelId : Uuid) (ts : ℕ) :
    FindsPrice t.modelPricing modelId ts (t.pricingAt modelId ts) := by
  have hmem : ∀ p, p ∈ t.modelPricing.filter (fun r => r.modelId = modelId ∧ r.effectiveFrom ≤ ts) ↔
      p ∈ t.modelPricing ∧ p.modelId = modelId ∧ p.effectiveFrom ≤ ts := by
    intro p
    rw [List.mem_filter, decide_eq_true_eq]
  unfold Tables.pricingAt
  obtain ⟨hnone, hnil, -⟩ | ⟨row, hrow, hfound, hmax⟩ := foldl_later
    (t.modelPricing.filter fun r => r.modelId = modelId ∧ r.effectiveFrom ≤ ts) none
  · rw [hnone]
    intro p hp hmodel
    by_contra hle
    have hin := (hmem p).2 ⟨hp, hmodel, by omega⟩
    rw [hnil] at hin
    cases hin
  · rw [hrow]
    rcases hfound with hfound | hfound
    · obtain ⟨hp, hmodel, hle⟩ := (hmem row).1 hfound
      exact ⟨hp, hmodel, hle, fun p hp hmodel hle =>
        hmax p (Or.inl ((hmem p).2 ⟨hp, hmodel, hle⟩))⟩
    · cases hfound

/-! ### The script -/

/-- The usage a row was charged for. -/
def UsageLedgerValues.usage (row : UsageLedgerValues) : AIUsage where
  promptTokens := row.promptTokens
  completionTokens := row.completionTokens
  cachedReadTokens := row.cachedReadTokens
  cacheWriteTokens := row.cacheWriteTokens
  estimated := row.costEstimated

def UsageLedgerValues.cost (row : UsageLedgerValues) : CostResult where
  costCents := row.costCents
  costUnknown := row.costUnknown

/-- `.set({ costCents, costUnknown })`. -/
def UsageLedgerRow.setCost (cost : CostResult) (row : UsageLedgerRow) : UsageLedgerRow :=
  { row with costCents := cost.costCents, costUnknown := cost.costUnknown }

def UsageLedgerRow.key (row : UsageLedgerRow) : String := row.requestId

/-- Rows are updated by their key, of which the request id is as good as any. -/
inductive RecomputeOp
  | findLedger (since until_ : Option ℕ)
  | findModels
  | pricingAt (modelId : Uuid) (ts : ℕ)
  | update (key : String) (cost : CostResult)

namespace RecomputeOp

@[reducible] def Answer : RecomputeOp → Type
  | findLedger _ _ => List UsageLedgerRow
  | findModels => List ModelRow
  | pricingAt _ _ => Option ModelPricingRow
  | update _ _ => Unit

/-- `gte` and `lte`, for the bounds that are given. -/
def between (since until_ : Option ℕ) (row : UsageLedgerRow) : Bool :=
  since.all (fun t => t ≤ row.ts) && until_.all (fun t => row.ts ≤ t)

/-- A database with these models and prices; rows are answered in any order. -/
def env (models : List ModelRow) (prices : List ModelPricingRow) :
    Env RecomputeOp Answer (List UsageLedgerRow) where
  allows db
    | findLedger since until_, r => r.Perm (db.filter (between since until_))
    | findModels, r => r.Perm models
    | pricingAt modelId ts, r => FindsPrice prices modelId ts r
    | update _ _, _ => True
  next db
    | update key cost, _ => Rows.update UsageLedgerRow.key key (UsageLedgerRow.setCost cost) db
    | _, _ => db

end RecomputeOp

abbrev Recompute (α : Type) : Type := Code RecomputeOp RecomputeOp.Answer Unit Empty α

structure RecomputeCounts where
  changed : ℕ := 0
  unresolved : ℕ := 0

def differs (row : UsageLedgerRow) (cost : CostResult) : Bool :=
  row.costCents.isNone != cost.costCents.isNone ||
  (match row.costCents, cost.costCents with
    | some a, some b => a != b
    | _, _ => false) ||
  row.costUnknown != cost.costUnknown

/-- The loop, from the row it has come to. -/
def recomputeRows (dry : Bool) (byCanonical : JsMap String ModelRow) :
    List UsageLedgerRow → RecomputeCounts → Recompute RecomputeCounts
  | [], counts => pure counts
  | row :: rows, counts =>
      match row.modelServed.filter fun served => served != "" with
      | none => recomputeRows dry byCanonical rows counts
      | some served => match byCanonical.get served with
        | none =>
            recomputeRows dry byCanonical rows { counts with unresolved := counts.unresolved + 1 }
        | some model => do
            let pricing ← Code.perform (RecomputeOp.pricingAt model.id row.ts)
            let cost := computeCost row.usage pricing
            if differs row cost then
              if dry then pure () else Code.perform (RecomputeOp.update row.key cost)
              recomputeRows dry byCanonical rows { counts with changed := counts.changed + 1 }
            else
              recomputeRows dry byCanonical rows counts

/-- `--dry`, `--from` and `--to`. -/
structure RecomputeArgs where
  dry : Bool := false
  since : Option ℕ := none
  until_ : Option ℕ := none

/-- `main`: the number of rows scanned, and what became of them. -/
def recomputeLedger (args : RecomputeArgs) : Recompute (ℕ × RecomputeCounts) := do
  let rows ← Code.perform (RecomputeOp.findLedger args.since args.until_)
  let modelRows ← Code.perform RecomputeOp.findModels
  let byCanonical := JsMap.ofList (modelRows.map fun m => (m.canonicalId, m))
  let counts ← recomputeRows args.dry byCanonical rows {}
  pure (rows.length, counts)

/-- From one ledger to another by a run of the script, to its end or to where it was stopped. -/
def Recomputes (models : List ModelRow) (prices : List ModelPricingRow) (args : RecomputeArgs)
    (db db' : List UsageLedgerRow) : Prop :=
  ∃ p, Prog.Run (RecomputeOp.env models prices) (recomputeLedger args ()) db p db'

/-! ### Settled rows -/

variable {models : List ModelRow} {prices : List ModelPricingRow} {db : List UsageLedgerRow}

/-- Every price of the served model in effect at the time of a row gives the cost it has. -/
def Settled (models : List ModelRow) (prices : List ModelPricingRow) (row : UsageLedgerRow) : Prop :=
  ∀ model ∈ models, row.modelServed = some model.canonicalId →
    ∀ pricing, FindsPrice prices model.id row.ts pricing → computeCost row.usage pricing = row.cost

theorem differs_eq_false {row : UsageLedgerRow} : differs row row.cost = false := by
  unfold differs UsageLedgerValues.cost
  cases row.costCents <;> simp

/-- A settled row is left alone. -/
theorem recomputeRows_settled {dry : Bool} {byCanonical : JsMap String ModelRow}
    (hby : ∀ served model, byCanonical.get served = some model →
      model ∈ models ∧ model.canonicalId = served)
    {rows : List UsageLedgerRow} (hrows : ∀ row ∈ rows, Settled models prices row)
    (counts : RecomputeCounts) :
    (recomputeRows dry byCanonical rows counts).wp (RecomputeOp.env models prices)
      (fun q _ => q = db) (fun _ _ q => q = db) () db := by
  induction rows generalizing counts with
  | nil => rfl
  | cons row rows ih =>
      have hrest : ∀ row ∈ rows, Settled models prices row :=
        fun row' hrow' => hrows row' (List.mem_cons_of_mem _ hrow')
      unfold recomputeRows
      cases hserved : row.modelServed.filter fun served => served != "" with
      | none => exact ih hrest counts
      | some served =>
          dsimp only
          cases hmodel : byCanonical.get served with
          | none => exact ih hrest _
          | some model =>
              simp only [Code.wp_bind, Code.wp_perform]
              refine ⟨trivial, fun pricing hpricing => ?_⟩
              obtain ⟨hmem, hcanonical⟩ := hby served model hmodel
              have hrow : row.modelServed = some model.canonicalId := by
                rw [hcanonical]
                exact (Option.filter_eq_some_iff.1 hserved).1
              have hcost := hrows row (List.mem_cons_self ..) model hmem hrow pricing hpricing
              rw [hcost, differs_eq_false, if_neg Bool.false_ne_true]
              exact ih hrest counts

/-- **Nothing is recomputed where every row is settled.** -/
theorem recompute_settled (h : ∀ row ∈ db, Settled models prices row) {args : RecomputeArgs}
    {db' : List UsageLedgerRow} (hrun : Recomputes models prices args db db') : db' = db := by
  have hwp : (recomputeLedger args).wp (RecomputeOp.env models prices)
      (fun q _ => q = db) (fun _ _ q => q = db) () db := by
    unfold recomputeLedger
    simp only [Code.wp_bind, Code.wp_perform]
    refine ⟨trivial, fun rows hrows => ⟨rfl, fun modelRows hmodels => ?_⟩⟩
    replace hrows : rows.Perm (db.filter (RecomputeOp.between args.since args.until_)) := hrows
    replace hmodels : modelRows.Perm models := hmodels
    have hsettled : ∀ row ∈ rows, Settled models prices row := by
      intro row hrow
      have hmem := List.mem_filter.1 (hrows.mem_iff.1 hrow)
      exact h row hmem.1
    have hby : ∀ served model,
        (JsMap.ofList (modelRows.map fun m => (m.canonicalId, m))).get served = some model →
        model ∈ models ∧ model.canonicalId = served := by
      intro served model hget
      obtain ⟨m, hm, heq⟩ := List.mem_map.1 (JsMap.mem_of_get_ofList hget)
      cases heq
      exact ⟨hmodels.mem_iff.1 hm, rfl⟩
    refine Code.wp_mono (recomputeRows_settled hby hsettled {}) fun r u q hq => ?_
    cases r with
    | ok counts => exact hq
    | error e => exact e.elim
  obtain ⟨p, hp⟩ := hrun
  have hend := Prog.wp_run hwp hp
  cases p with
  | ret a => exact hend
  | call e k => exact hend.1

end VibeRouter
