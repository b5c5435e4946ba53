import Mathlib.Algebra.Order.Field.Basic
import Mathlib.Tactic.Linarith
import Mathlib.Tactic.Ring

/-! # Token buckets

A bucket holds at most `burst` tokens and gains `rate` of them in a unit of time.  It is filled when
somebody draws from it, so it stores what it held then and when that was. -/

/-- What a bucket held at a moment. -/
structure Bucket (α : Type) where
  tokens : α
  updatedAt : α

namespace Bucket

variable {α : Type} [Field α] [LinearOrder α]

/-- The bucket at a later moment. -/
def refill (rate burst : α) (b : Bucket α) (now : α) : Bucket α :=
  ⟨min burst (b.tokens + (now - b.updatedAt) * rate), now⟩

/-- The bucket after one token was drawn. -/
def spend (b : Bucket α) : Bucket α := { b with tokens := b.tokens - 1 }

variable {rate burst : α} {b : Bucket α} {now later : α}

theorem refill_tokens_le : (b.refill rate burst now).tokens ≤ burst := min_le_left ..

/-- Nothing flows in at once. -/
theorem refill_updatedAt_le : (b.refill rate burst b.updatedAt).tokens ≤ b.tokens := by
  unfold refill
  rw [sub_self, zero_mul, add_zero]
  exact min_le_right ..

variable [IsStrictOrderedRing α]

theorem refill_tokens_nonneg (hrate : 0 ≤ rate) (hburst : 0 ≤ burst) (hb : 0 ≤ b.tokens)
    (hnow : b.updatedAt ≤ now) : 0 ≤ (b.refill rate burst now).tokens :=
  le_min hburst (add_nonneg hb (mul_nonneg (sub_nonneg.2 hnow) hrate))

/-- A bucket gains at most `rate` in a unit of time. -/
theorem refill_tokens_le_add (hrate : 0 ≤ rate) (hlater : now ≤ later) :
    (b.refill rate burst later).tokens ≤
      (b.refill rate burst now).tokens + (later - now) * rate := by
  have hgain : 0 ≤ (later - now) * rate := mul_nonneg (sub_nonneg.2 hlater) hrate
  have hsplit : (later - b.updatedAt) * rate =
      (now - b.updatedAt) * rate + (later - now) * rate := by ring
  unfold refill
  dsimp only
  rw [hsplit, ← add_assoc, ← min_add_add_right]
  exact min_le_min_right _ (le_add_of_nonneg_right hgain)

/-- A bucket that was left alone for long enough is full. -/
theorem refill_tokens_eq (hb : 0 ≤ b.tokens) (hidle : burst ≤ (now - b.updatedAt) * rate) :
    (b.refill rate burst now).tokens = burst :=
  min_eq_left (by linarith)

/-- A token is there once the missing part of it has flowed in. -/
theorem one_le_refill_tokens (hburst : 1 ≤ burst) (hgain : 1 - b.tokens ≤ (now - b.updatedAt) * rate) :
    1 ≤ (b.refill rate burst now).tokens :=
  le_min hburst (by linarith)

/-- Looking at a bucket in between changes nothing. -/
theorem refill_refill (hrate : 0 ≤ rate) (hlater : now ≤ later) :
    (b.refill rate burst now).refill rate burst later = b.refill rate burst later := by
  have hgain : 0 ≤ (later - now) * rate := mul_nonneg (sub_nonneg.2 hlater) hrate
  have hsplit : b.tokens + (later - b.updatedAt) * rate =
      b.tokens + (now - b.updatedAt) * rate + (later - now) * rate := by ring
  unfold refill
  dsimp only
  rw [hsplit, ← min_add_add_right, ← min_assoc, min_eq_left (le_add_of_nonneg_right hgain)]

end Bucket
