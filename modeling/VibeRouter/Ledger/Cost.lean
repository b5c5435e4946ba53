import VibeRouter.Gateway.Envelope

/-! # The cost of a request

Rates are millionths of a dollar for each million tokens and costs are millionths of a cent, so
`tokens × rate` is counted in ten-thousandths of the unit of a cost; the sum is rounded once,
as `toFixed(6)` does.  A cost is negative where a provider reports negative counts or a price is. -/

namespace VibeRouter

/-- `costCents` is `null` when the cost is unknown. -/
structure CostResult where
  costCents : Option ℤ
  costUnknown : Bool
deriving DecidableEq

/-- `tokens × rate`, in ten-thousandths of a millionth of a cent. -/
def centsFor (tokens : ℚ) (perMtok : Option ℤ) : Option ℚ := perMtok.map fun rate : ℤ => tokens * rate

/-- `toFixed(6)`: a half is rounded away from zero. -/
def toFixed6 (n : ℚ) : ℤ :=
  if 0 ≤ n then ((n + 5000) / 10000).floor else -((-n + 5000) / 10000).floor

def computeCost (usage : AIUsage) (pricing : Option ModelPricingRow) : CostResult :=
  let anyTokens : Bool := 0 < usage.promptTokens + usage.completionTokens +
    usage.cachedReadTokens + usage.cacheWriteTokens
  match pricing with
  | none => if anyTokens then ⟨none, true⟩ else ⟨some 0, false⟩
  | some pricing =>
      let input := centsFor usage.promptTokens pricing.inputPerMtok
      let output := centsFor usage.completionTokens pricing.outputPerMtok
      let cacheRead := centsFor usage.cachedReadTokens
        (pricing.cacheReadPerMtok.orElse fun _ => pricing.inputPerMtok)
      let cacheWrite := centsFor usage.cacheWriteTokens
        (pricing.cacheWritePerMtok.orElse fun _ => pricing.inputPerMtok)
      if (0 < usage.promptTokens ∧ input.isNone) ∨ (0 < usage.completionTokens ∧ output.isNone) ∨
          (0 < usage.cachedReadTokens ∧ cacheRead.isNone) ∨
          (0 < usage.cacheWriteTokens ∧ cacheWrite.isNone) then ⟨none, true⟩
      else
        ⟨some (toFixed6 (input.getD 0 + output.getD 0 + cacheRead.getD 0 + cacheWrite.getD 0)),
          false⟩

end VibeRouter
