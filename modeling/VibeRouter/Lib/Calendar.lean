import Mathlib.Data.Nat.Notation
import Mathlib.Order.Monotone.Basic
import Mathlib.Algebra.Order.Ring.Nat

/-! # Months

The calendar months of UTC time from January 1970 on, numbered from 0.  `monthOf day` is the
month a day lies in, found by walking from the first month; `monthOf_spec` says that it is the
one month that starts at or before the day and ends after it. -/

namespace Calendar

/-- Is there a 29 February in the year? -/
def isLeap (year : ℕ) : Bool := (year % 4 = 0 ∧ year % 100 ≠ 0) ∨ year % 400 = 0

/-- The number of days of month `m`. -/
def monthLength (m : ℕ) : ℕ :=
  match m % 12 with
  | 1 => if isLeap (1970 + m / 12) then 29 else 28
  | 3 | 5 | 8 | 10 => 30
  | _ => 31

/-- The first day of month `m`, counted from 1 January 1970. -/
def firstDay : ℕ → ℕ
  | 0 => 0
  | m + 1 => firstDay m + monthLength m

/-- Walk from month `m`, `left` days before the day looked for, for at most `fuel` months. -/
def walk : ℕ → ℕ → ℕ → ℕ
  | 0, m, _ => m
  | fuel + 1, m, left => if left < monthLength m then m else walk fuel (m + 1) (left - monthLength m)

/-- The month of a day. -/
def monthOf (day : ℕ) : ℕ := walk day 0 day

theorem monthLength_pos (m : ℕ) : 0 < monthLength m := by
  unfold monthLength
  split
  · split <;> omega
  all_goals omega

theorem monthLength_le (m : ℕ) : monthLength m ≤ 31 := by
  unfold monthLength
  split
  · split <;> omega
  all_goals omega

theorem firstDay_lt (m : ℕ) : firstDay m < firstDay (m + 1) := by
  have := monthLength_pos m
  simp only [firstDay]
  omega

theorem firstDay_strictMono : StrictMono firstDay := strictMono_nat_of_lt_succ firstDay_lt

theorem walk_spec (fuel m left : ℕ) (h : left ≤ fuel) :
    firstDay (walk fuel m left) ≤ firstDay m + left ∧
      firstDay m + left < firstDay (walk fuel m left + 1) := by
  induction fuel generalizing m left with
  | zero =>
      have := firstDay_lt m
      simp only [walk]
      omega
  | succ fuel ih =>
      unfold walk
      split
      · simp only [firstDay]
        omega
      · have hm := monthLength_pos m
        have := ih (m + 1) (left - monthLength m) (by omega)
        simp only [firstDay] at this ⊢
        omega

/-- A day lies in its month. -/
theorem monthOf_spec (day : ℕ) : firstDay (monthOf day) ≤ day ∧ day < firstDay (monthOf day + 1) := by
  have := walk_spec day 0 day le_rfl
  simpa [monthOf, firstDay] using this

/-- The months of days are ordered as the days are. -/
theorem monthOf_mono {a b : ℕ} (h : a ≤ b) : monthOf a ≤ monthOf b := by
  by_contra hlt
  have h₁ : firstDay (monthOf b + 1) ≤ firstDay (monthOf a) :=
    firstDay_strictMono.monotone (by omega)
  have h₂ := (monthOf_spec b).2
  have h₃ := (monthOf_spec a).1
  omega

/-- The month of a day between the first days of two months. -/
theorem monthOf_eq {m day : ℕ} (h : firstDay m ≤ day) (hnext : day < firstDay (m + 1)) :
    monthOf day = m := by
  obtain ⟨hfirst, hlast⟩ := monthOf_spec day
  have hle : monthOf day < m + 1 := firstDay_strictMono.lt_iff_lt.1 (lt_of_le_of_lt hfirst hnext)
  have hge : m < monthOf day + 1 := firstDay_strictMono.lt_iff_lt.1 (lt_of_le_of_lt h hlast)
  omega

example : monthOf 20000 = 54 * 12 + 9 := by decide +kernel

end Calendar
