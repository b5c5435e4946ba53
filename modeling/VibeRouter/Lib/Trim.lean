import VibeRouter.Lib.JsString

/-! # Trimmed strings

A string is trimmed when it neither begins nor ends with white space; `trim` makes a string trimmed
and leaves a trimmed one as it is. -/

namespace JsString

def Trimmed (s : JsString) : Prop :=
  (∀ c ∈ s.head?, isSpace c = false) ∧ ∀ c ∈ s.getLast?, isSpace c = false

/-- What is left after the white space at the front. -/
theorem head_dropWhile (p : ℕ → Bool) (s : JsString) : ∀ c ∈ (s.dropWhile p).head?, p c = false := by
  intro c hc
  have hnot := List.head?_dropWhile_not p s
  rw [Option.mem_def] at hc
  rw [hc] at hnot
  simpa using hnot

theorem dropWhile_of_head {p : ℕ → Bool} {s : JsString} (h : ∀ c ∈ s.head?, p c = false) :
    s.dropWhile p = s := by
  cases s with
  | nil => rfl
  | cons c s =>
      have hc := h c rfl
      rw [List.dropWhile_cons_of_neg (by simp [hc])]

theorem trim_of_trimmed {s : JsString} (h : s.Trimmed) : s.trim = s := by
  have hlast : ∀ c ∈ s.reverse.head?, isSpace c = false := by
    rw [List.head?_reverse]
    exact h.2
  unfold trim
  rw [dropWhile_of_head h.1, dropWhile_of_head hlast, List.reverse_reverse]

theorem trimmed_trim (s : JsString) : s.trim.Trimmed := by
  constructor
  · intro c hc
    have hsuffix : (s.dropWhile isSpace).reverse.dropWhile isSpace <:+
        (s.dropWhile isSpace).reverse := List.dropWhile_suffix _
    have hprefix : s.trim <+: s.dropWhile isSpace := by
      have h := List.reverse_prefix.2 hsuffix
      rwa [List.reverse_reverse] at h
    obtain ⟨t, ht⟩ := hprefix
    refine head_dropWhile isSpace s c ?_
    rw [← ht]
    cases htrim : s.trim with
    | nil =>
        rw [htrim] at hc
        cases hc
    | cons x xs =>
        rw [htrim] at hc
        exact hc
  · intro c hc
    unfold trim at hc
    rw [List.getLast?_reverse] at hc
    exact head_dropWhile isSpace _ c hc

/-- A front part of a trimmed string that does not end with white space is trimmed. -/
theorem Trimmed.of_prefix {s t : JsString} (h : (s ++ t).Trimmed)
    (hlast : ∀ c ∈ s.getLast?, isSpace c = false) : s.Trimmed := by
  refine ⟨fun c hc => h.1 c ?_, hlast⟩
  cases s with
  | nil => cases hc
  | cons x xs => exact hc

/-- A back part of a trimmed string that does not begin with white space is trimmed. -/
theorem Trimmed.of_suffix {s t : JsString} (h : (s ++ t).Trimmed)
    (hhead : ∀ c ∈ t.head?, isSpace c = false) : t.Trimmed := by
  refine ⟨hhead, fun c hc => h.2 c ?_⟩
  rw [Option.mem_def] at hc ⊢
  rw [List.getLast?_append, hc]
  rfl

end JsString
