import VibeRouter.Lib.JsonText
import Mathlib.Data.Nat.Digits.Lemmas

/-! # Whole numbers in decimal

`Json.decimal` writes a whole number in decimal, and `Json.number` reads it back
(`decimal_readsBack`). -/

namespace Json

/-- A natural number in decimal. -/
def wholeText (n : ℕ) : JsString :=
  if n = 0 then [48] else (Nat.digits 10 n).reverse.map (48 + ·)

/-- A number in decimal, as far as it is whole. -/
def decimal (n : ℚ) : JsString := if n.num < 0 then 45 :: wholeText n.num.natAbs else wholeText n.num.natAbs

theorem digitsValue_digits (ds : List ℕ) :
    JsString.digitsValue (ds.reverse.map (48 + ·)) = Nat.ofDigits 10 ds := by
  induction ds with
  | nil => rfl
  | cons d ds ih =>
      rw [List.reverse_cons, List.map_append, Nat.ofDigits_cons, ← ih]
      unfold JsString.digitsValue
      rw [List.foldl_append]
      simp only [List.map_cons, List.map_nil, List.foldl_cons, List.foldl_nil]
      omega

theorem digits_append {ds rest : JsString} (hds : ds ≠ []) (hdigits : ∀ c ∈ ds, JsString.isDigit c = true)
    (hrest : Ends rest) : digits (ds ++ rest) = some (ds, rest) := by
  have hstop : rest.takeWhile JsString.isDigit = [] := by
    cases rest with
    | nil => rfl
    | cons c rest =>
        have hc := hrest c rfl
        refine List.takeWhile_cons_of_neg ?_
        rcases hc with rfl | rfl | rfl <;> decide
  have htake : (ds ++ rest).takeWhile JsString.isDigit = ds := by
    rw [List.takeWhile_append_of_pos hdigits, hstop, List.append_nil]
  unfold digits
  dsimp only
  rw [htake, if_neg hds, List.drop_left]

theorem digitsValue_wholeText (n : ℕ) : JsString.digitsValue (wholeText n) = n := by
  unfold wholeText
  split
  · next h =>
    rw [h]
    rfl
  · rw [digitsValue_digits, Nat.ofDigits_digits]

theorem isDigit_wholeText (n : ℕ) : ∀ c ∈ wholeText n, JsString.isDigit c = true := by
  intro c hc
  unfold wholeText at hc
  split at hc
  · rw [List.mem_singleton.1 hc]
    rfl
  · obtain ⟨d, hd, rfl⟩ := List.mem_map.1 hc
    have hlt := Nat.digits_lt_base (by decide) (List.mem_reverse.1 hd)
    simp only [JsString.isDigit, Bool.and_eq_true, decide_eq_true_eq]
    omega

/-- The first digit, which is no zero unless the number is. -/
theorem wholeText_cons (n : ℕ) : ∃ c cs, wholeText n = c :: cs ∧ (n ≠ 0 → c ≠ 48) := by
  by_cases hn : n = 0
  · exact ⟨48, [], if_pos hn, fun h => absurd hn h⟩
  have hne := Nat.digits_ne_nil_iff_ne_zero (b := 10).2 hn
  cases hreverse : (Nat.digits 10 n).reverse with
  | nil => exact absurd (List.reverse_eq_nil_iff.1 hreverse) hne
  | cons d ds =>
      refine ⟨48 + d, ds.map (48 + ·), ?_, fun _ h => ?_⟩
      · unfold wholeText
        rw [if_neg hn, hreverse]
        rfl
      · have hlast := Nat.getLast_digit_ne_zero 10 hn
        have hhead := List.head?_reverse (l := Nat.digits 10 n)
        rw [hreverse, List.getLast?_eq_some_getLast hne] at hhead
        cases hhead
        omega

theorem intPart_wholeText (n : ℕ) {rest : JsString} (hrest : Ends rest) :
    intPart (wholeText n ++ rest) = some (wholeText n, rest) := by
  by_cases hn : n = 0
  · subst hn
    rfl
  obtain ⟨c, cs, hwhole, hc⟩ := wholeText_cons n
  have hdigits : digits (wholeText n ++ rest) = some (wholeText n, rest) :=
    digits_append (hwhole ▸ List.cons_ne_nil c cs) (isDigit_wholeText n) hrest
  unfold intPart
  split
  · next heq =>
    rw [hwhole] at heq
    cases heq
    exact absurd rfl (hc hn)
  · exact hdigits

theorem unsigned_wholeText (n : ℕ) {rest : JsString} (hrest : Ends rest) :
    unsigned (wholeText n ++ rest) = some ((n : ℚ), rest) := by
  have hfrac : fracPart rest = some ([], rest) := by
    cases rest with
    | nil => rfl
    | cons c rest => rcases hrest c rfl with rfl | rfl | rfl <;> rfl
  have hexp : expPart rest = some (0, rest) := by
    cases rest with
    | nil => rfl
    | cons c rest => rcases hrest c rfl with rfl | rfl | rfl <;> rfl
  unfold unsigned
  rw [intPart_wholeText n hrest, Option.bind_some, hfrac, Option.bind_some, hexp, Option.map_some,
    List.append_nil, digitsValue_wholeText]
  simp [scale]

theorem decimal_readsBack (z : ℤ) : ReadsBack decimal z := by
  obtain ⟨c, cs, hwhole, -⟩ := wholeText_cons z.natAbs
  have hc : JsString.isDigit c = true :=
    isDigit_wholeText z.natAbs c (hwhole ▸ List.mem_cons_self)
  have hdecimal : decimal z = if z < 0 then 45 :: wholeText z.natAbs else wholeText z.natAbs := by
    unfold decimal
    rw [Rat.num_intCast]
  constructor
  · rw [hdecimal]
    split
    · exact ⟨45, _, rfl, Or.inl rfl⟩
    · exact ⟨c, cs, hwhole, Or.inr hc⟩
  · intro rest hrest
    have hunsigned := unsigned_wholeText z.natAbs hrest
    rw [hdecimal]
    split
    · next hneg =>
      have habs : -((z.natAbs : ℕ) : ℚ) = z := by
        have habs : -((z.natAbs : ℕ) : ℤ) = z := by omega
        rw [← Int.cast_natCast, ← Int.cast_neg, habs]
      show (unsigned (wholeText z.natAbs ++ rest)).map _ = _
      rw [hunsigned, Option.map_some, habs]
    · next hpos =>
      have habs : ((z.natAbs : ℕ) : ℚ) = z := by
        have habs : ((z.natAbs : ℕ) : ℤ) = z := by omega
        rw [← Int.cast_natCast, habs]
      unfold Json.number
      split
      · next heq =>
        rw [hwhole] at heq
        cases heq
        cases hc
      · rw [hunsigned, habs]

end Json
