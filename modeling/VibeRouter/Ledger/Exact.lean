import Mathlib.Algebra.Order.BigOperators.Group.List
import Mathlib.Algebra.Order.Floor.Ring
import Mathlib.Data.Rat.Floor
import Mathlib.Tactic.FieldSimp
import VibeRouter.Adapters.OpenaiCompat
import VibeRouter.Gateway.OpenaiShape
import VibeRouter.Ledger.Cost

/-! # Exact costs and token counts

The cost of a request in exact arithmetic, and the tokens that a provider reports, which the adapter
splits and the wire format adds again (`cost_exact`). -/

namespace VibeRouter

/-! ### The cost -/

/-- The components of a cost. -/
inductive TokenKind
  | prompt | completion | cachedRead | cacheWrite
deriving DecidableEq

def TokenKind.all : List TokenKind := [prompt, completion, cachedRead, cacheWrite]

def AIUsage.tokens (usage : AIUsage) : TokenKind → ℚ
  | .prompt => usage.promptTokens
  | .completion => usage.completionTokens
  | .cachedRead => usage.cachedReadTokens
  | .cacheWrite => usage.cacheWriteTokens

/-- No count is negative. -/
def AIUsage.Natural (usage : AIUsage) : Prop := ∀ kind, 0 ≤ usage.tokens kind

/-- The rate of a component; what is read from or written to a cache costs as much as input if it
has no rate of its own. -/
def ModelPricingRow.rate (pricing : ModelPricingRow) : TokenKind → Option ℤ
  | .prompt => pricing.inputPerMtok
  | .completion => pricing.outputPerMtok
  | .cachedRead => pricing.cacheReadPerMtok.orElse fun _ => pricing.inputPerMtok
  | .cacheWrite => pricing.cacheWritePerMtok.orElse fun _ => pricing.inputPerMtok

def rateOf (pricing : Option ModelPricingRow) (kind : TokenKind) : Option ℤ :=
  pricing.bind fun pricing => pricing.rate kind

/-- A price in dollars for each million tokens. -/
def dollarsPerMtok (rate : Option ℤ) : ℚ := (rate.getD 0 : ℤ) / 1000000

/-- The cost in cents. -/
def exactCents (usage : AIUsage) (pricing : Option ModelPricingRow) : ℚ :=
  (TokenKind.all.map fun kind =>
    usage.tokens kind * dollarsPerMtok (rateOf pricing kind) / 10000).sum

/-- An amount rounded to six places, half away from zero, counted in millionths. -/
def roundSix (cents : ℚ) : ℤ :=
  if 0 ≤ cents then ⌊cents * 1000000 + 1 / 2⌋ else -⌊-cents * 1000000 + 1 / 2⌋

/-- Some tokens have no rate. -/
def Unpriced (usage : AIUsage) (pricing : Option ModelPricingRow) : Prop :=
  ∃ kind, 0 < usage.tokens kind ∧ rateOf pricing kind = none

/-! ### Rounding -/

theorem toFixed6_eq (n : ℚ) : toFixed6 n = roundSix (n / 10000 / 1000000) := by
  have hunits : ∀ m : ℚ, ((m + 5000) / 10000).floor = ⌊m / 10000 / 1000000 * 1000000 + 1 / 2⌋ := by
    intro m
    refine congrArg (Int.floor (α := ℚ)) ?_
    field_simp
    ring
  have hsign : 0 ≤ n / 10000 / 1000000 ↔ 0 ≤ n := by
    rw [div_div, le_div_iff₀ (by norm_num), zero_mul]
  unfold toFixed6 roundSix
  by_cases h : 0 ≤ n
  · rw [if_pos h, if_pos (hsign.2 h), hunits]
  · rw [if_neg h, if_neg fun hpos => h (hsign.1 hpos), hunits, neg_div, neg_div]

theorem roundSix_nonneg {cents : ℚ} (h : 0 ≤ cents) : 0 ≤ roundSix cents := by
  unfold roundSix
  rw [if_pos h]
  exact Int.floor_nonneg.2 (by positivity)

/-- The sum that the code rounds. -/
def totalUnits (usage : AIUsage) (pricing : ModelPricingRow) : ℚ :=
  (TokenKind.all.map fun kind => (centsFor (usage.tokens kind) (pricing.rate kind)).getD 0).sum

theorem exactCents_eq (usage : AIUsage) (pricing : ModelPricingRow) :
    exactCents usage (some pricing) = totalUnits usage pricing / 10000 / 1000000 := by
  have hone : ∀ kind, usage.tokens kind * dollarsPerMtok (rateOf (some pricing) kind) / 10000 =
      (centsFor (usage.tokens kind) (pricing.rate kind)).getD 0 / 10000 / 1000000 := by
    intro kind
    unfold dollarsPerMtok centsFor rateOf
    rw [Option.bind_some]
    cases pricing.rate kind with
    | none => simp
    | some rate =>
        show usage.tokens kind * (rate / 1000000) / 10000 = usage.tokens kind * rate / 10000 / 1000000
        ring
  unfold exactCents totalUnits TokenKind.all
  simp only [List.map_cons, List.map_nil, List.sum_cons, List.sum_nil, hone]
  ring

/-! ### Unknown costs -/

theorem isNone_centsFor (tokens : ℚ) (rate : Option ℤ) :
    (centsFor tokens rate).isNone = true ↔ rate = none := by
  unfold centsFor
  cases rate <;> simp

theorem exists_kind {p : TokenKind → Prop} :
    (∃ kind, p kind) ↔ p .prompt ∨ p .completion ∨ p .cachedRead ∨ p .cacheWrite := by
  constructor
  · rintro ⟨kind, h⟩
    cases kind with
    | prompt => exact Or.inl h
    | completion => exact Or.inr (Or.inl h)
    | cachedRead => exact Or.inr (Or.inr (Or.inl h))
    | cacheWrite => exact Or.inr (Or.inr (Or.inr h))
  · rintro (h | h | h | h)
    exacts [⟨_, h⟩, ⟨_, h⟩, ⟨_, h⟩, ⟨_, h⟩]

theorem unpriced_some_iff (usage : AIUsage) (pricing : ModelPricingRow) :
    Unpriced usage (some pricing) ↔ ∃ kind, 0 < usage.tokens kind ∧
      (centsFor (usage.tokens kind) (pricing.rate kind)).isNone = true := by
  unfold Unpriced rateOf
  simp only [isNone_centsFor, Option.bind_some]

/-- Natural counts have a positive sum if one of them is positive. -/
theorem unpriced_none_iff {usage : AIUsage} (h : usage.Natural) :
    Unpriced usage none ↔ 0 < usage.promptTokens + usage.completionTokens +
      usage.cachedReadTokens + usage.cacheWriteTokens := by
  have hprompt : 0 ≤ usage.promptTokens := h .prompt
  have hcompletion : 0 ≤ usage.completionTokens := h .completion
  have hread : 0 ≤ usage.cachedReadTokens := h .cachedRead
  have hwrite : 0 ≤ usage.cacheWriteTokens := h .cacheWrite
  constructor
  · rintro ⟨kind, htokens, -⟩
    cases kind <;> simp only [AIUsage.tokens] at htokens <;> linarith
  · intro hsum
    by_contra hnone
    have hzero : ∀ kind, usage.tokens kind ≤ 0 := fun kind => not_lt.1 fun hpos => hnone ⟨kind, hpos, rfl⟩
    have hp : usage.promptTokens ≤ 0 := hzero .prompt
    have hc : usage.completionTokens ≤ 0 := hzero .completion
    have hr : usage.cachedReadTokens ≤ 0 := hzero .cachedRead
    have hw : usage.cacheWriteTokens ≤ 0 := hzero .cacheWrite
    linarith

/-- The cost by a pricing row, whatever the counts. -/
theorem computeCost_priced (usage : AIUsage) (pricing : ModelPricingRow) :
    (Unpriced usage (some pricing) → computeCost usage (some pricing) = ⟨none, true⟩) ∧
      (¬Unpriced usage (some pricing) → computeCost usage (some pricing) =
        ⟨some (roundSix (exactCents usage (some pricing))), false⟩) := by
  rw [unpriced_some_iff, exists_kind, exactCents_eq, ← toFixed6_eq]
  unfold computeCost
  dsimp only
  constructor
  · exact fun h => if_pos h
  · intro h
    refine (if_neg h).trans ?_
    congr 2
    unfold totalUnits TokenKind.all
    simp only [List.map_cons, List.map_nil, List.sum_cons, List.sum_nil, add_zero]
    simp only [AIUsage.tokens, ModelPricingRow.rate]
    ring_nf

/-- **The cost is unknown exactly when some tokens have no rate**, and is rounded once otherwise. -/
theorem computeCost_spec {usage : AIUsage} (hnatural : usage.Natural) (pricing : Option ModelPricingRow) :
    (Unpriced usage pricing → computeCost usage pricing = ⟨none, true⟩) ∧
      (¬Unpriced usage pricing →
        computeCost usage pricing = ⟨some (roundSix (exactCents usage pricing)), false⟩) := by
  cases pricing with
  | none =>
      rw [unpriced_none_iff hnatural]
      unfold computeCost
      dsimp only
      constructor
      · intro h
        rw [if_pos (decide_eq_true h)]
      · intro h
        have hcents : exactCents usage none = 0 := by
          unfold exactCents TokenKind.all dollarsPerMtok rateOf
          simp
        have hround : roundSix 0 = 0 := by
          unfold roundSix
          norm_num
        rw [if_neg (by simpa using h), hcents, hround]
  | some pricing => exact computeCost_priced usage pricing

/-- Natural counts at rates that are not negative cost nothing less than nothing. -/
theorem computeCost_nonneg {usage : AIUsage} (hnatural : usage.Natural) {pricing : Option ModelPricingRow}
    (hrates : ∀ kind rate, rateOf pricing kind = some rate → 0 ≤ rate) {cents : ℤ}
    (h : (computeCost usage pricing).costCents = some cents) : 0 ≤ cents := by
  obtain ⟨hunknown, hknown⟩ := computeCost_spec hnatural pricing
  by_cases hunpriced : Unpriced usage pricing
  · rw [hunknown hunpriced] at h
    cases h
  · rw [hknown hunpriced] at h
    cases h
    refine roundSix_nonneg (List.sum_nonneg ?_)
    intro x hx
    obtain ⟨kind, -, rfl⟩ := List.mem_map.1 hx
    have hrate : 0 ≤ dollarsPerMtok (rateOf pricing kind) := by
      unfold dollarsPerMtok
      cases hr : rateOf pricing kind with
      | none => simp
      | some rate => exact div_nonneg (by exact_mod_cast hrates kind rate hr) (by norm_num)
    exact div_nonneg (mul_nonneg (hnatural kind) hrate) (by norm_num)

/-! ### The tokens -/

namespace OpenaiCompat

/-- The prompt tokens a provider reports. -/
def promptCount (raw : Option RawUsage) : ℚ := (raw.bind RawUsage.prompt_tokens).getD 0

/-- The cached tokens a provider reports. -/
def cachedCount (raw : Option RawUsage) : ℚ :=
  (raw.bind fun raw => raw.cached_tokens <|> raw.prompt_cache_hit_tokens).getD 0

/-- The parts of the prompt add up to it. -/
theorem extractUsage_sum {raw : Option RawUsage} (h : cachedCount raw ≤ promptCount raw) :
    (extractUsage raw).promptTokens + (extractUsage raw).cachedReadTokens +
      (extractUsage raw).cacheWriteTokens = promptCount raw := by
  unfold extractUsage
  cases raw with
  | none =>
      show (0 : ℚ) + 0 + 0 = 0
      norm_num
  | some raw =>
      have hprompt : promptCount (some raw) = raw.prompt_tokens.getD 0 := rfl
      have hcached : cachedCount (some raw) =
          (raw.cached_tokens <|> raw.prompt_cache_hit_tokens).getD 0 := rfl
      dsimp only
      split
      · next hnone =>
          rw [Bool.and_eq_true, Option.isNone_iff_eq_none] at hnone
          rw [hprompt, hnone.1]
          show (0 : ℚ) + 0 + 0 = 0
          norm_num
      · rw [← hprompt, ← hcached]
        show max 0 (promptCount (some raw) - cachedCount (some raw)) + cachedCount (some raw) + 0 = _
        rw [max_eq_right (sub_nonneg.2 h)]
        ring

/-- The wire format gets the prompt count of the provider back. -/
theorem toOpenAiUsage_prompt {raw : Option RawUsage} (h : cachedCount raw ≤ promptCount raw) :
    (toOpenAiUsage (extractUsage raw)).field "prompt_tokens" = some (.num (promptCount raw)) := by
  show some (Json.num _) = _
  rw [extractUsage_sum h]

end OpenaiCompat

/-! ### Main result -/

open OpenaiCompat in
/-- **Costs are exact and tokens are conserved.**  A cost is unknown exactly when some tokens have no
rate, and is otherwise the exact sum rounded to six places.  A usage that reports no more cached
tokens than prompt tokens is split into parts that add up to the prompt on the wire. -/
theorem cost_exact {usage : AIUsage} (hnatural : usage.Natural) (pricing : Option ModelPricingRow)
    {raw : Option RawUsage} (hcached : cachedCount raw ≤ promptCount raw) :
    ((computeCost usage pricing).costUnknown = true ↔
      ∃ kind, 0 < usage.tokens kind ∧ rateOf pricing kind = none) ∧
    (computeCost usage pricing).costCents =
      (if (computeCost usage pricing).costUnknown then none
        else some (roundSix (exactCents usage pricing))) ∧
    (extractUsage raw).promptTokens + (extractUsage raw).cachedReadTokens +
      (extractUsage raw).cacheWriteTokens = promptCount raw ∧
    (toOpenAiUsage (extractUsage raw)).field "prompt_tokens" = some (.num (promptCount raw)) := by
  obtain ⟨hunknown, hknown⟩ := computeCost_spec hnatural pricing
  refine ⟨?_, ?_, extractUsage_sum hcached, toOpenAiUsage_prompt hcached⟩
  · by_cases h : Unpriced usage pricing
    · rw [hunknown h]
      exact iff_of_true rfl h
    · rw [hknown h]
      exact iff_of_false Bool.false_ne_true h
  · by_cases h : Unpriced usage pricing
    · rw [hunknown h]
      rfl
    · rw [hknown h]
      rfl

/-! ### Samples -/

namespace Sample

/-- A hundred prompt tokens, forty of them cached. -/
def reportedUsage : OpenaiCompat.RawUsage := ⟨some 100, some 7, some 40, none⟩

def freeOutput : ModelPricingRow := ⟨⟨"c0de", by decide⟩, 0, some 3000000, none, none, none⟩

/-- Sixty tokens of the prompt are billed as input and forty as cached, and the output has no
rate. -/
theorem reportedUsage_unpriced :
    (computeCost (OpenaiCompat.extractUsage (some reportedUsage)) (some freeOutput)).costUnknown = true ∧
    (toOpenAiUsage (OpenaiCompat.extractUsage (some reportedUsage))).field "prompt_tokens" =
      some (.num 100) := by
  have hnatural : (OpenaiCompat.extractUsage (some reportedUsage)).Natural := by
    intro kind
    cases kind <;> decide +kernel
  have hcached : OpenaiCompat.cachedCount (some reportedUsage) ≤
      OpenaiCompat.promptCount (some reportedUsage) := by decide
  obtain ⟨hunknown, -, -, hwire⟩ := cost_exact hnatural (some freeOutput) hcached
  exact ⟨hunknown.2 ⟨.completion, by decide, rfl⟩, hwire⟩

end Sample

end VibeRouter
