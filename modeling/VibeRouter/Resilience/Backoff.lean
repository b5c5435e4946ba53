import Mathlib.Algebra.Order.Field.Rat

/-! # Retry backoff -/

namespace VibeRouter

def MAX_RETRIES : ℕ := 2

/-- Exponential with full jitter (`rand` is in `[0, 1)`); a provider's own wish wins. -/
def retryDelayMs (attempt : ℕ) (retryAfterSeconds : Option ℚ) (rand : ℚ) : ℚ :=
  match retryAfterSeconds with
  | some s => min (s * 1000) 30000
  | none => min (250 * 2 ^ attempt + rand * 250) 4000

end VibeRouter
