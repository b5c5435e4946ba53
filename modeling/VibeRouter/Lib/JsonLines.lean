import VibeRouter.Lib.JsonText
import VibeRouter.Lib.LineEnds
import VibeRouter.Lib.Utf8
import Mathlib.Data.List.TakeWhile

/-! # JSON texts on one line

What `Json.stringify` writes is well-formed Unicode without an end of line (`tidy_stringify`): control
characters and surrogates without a partner are escaped, and numbers are written in ASCII. -/

theorem js_units (s : String) : (js s).Units := by
  intro c hc
  obtain ⟨ch, -, hch⟩ := List.mem_flatMap.1 hc
  have hmax : ch.toNat < 0x110000 := by
    have := ch.valid
    have heq : ch.toNat = ch.val.toNat := rfl
    rcases this with h | h <;> omega
  unfold JsString.units at hch
  dsimp only at hch
  split at hch
  · rw [List.mem_singleton.1 hch]
    assumption
  · simp only [List.mem_cons, List.not_mem_nil, or_false] at hch
    omega

namespace Utf8

theorem wellFormed_append {s t : JsString} (hs : WellFormed s) (ht : WellFormed t) :
    WellFormed (s ++ t) := by
  unfold WellFormed at *
  fun_induction isWellFormed s with
  | case1 => exact ht
  | case2 c hhigh d ds ih =>
      rw [Bool.and_eq_true] at hs
      simp only [List.cons_append, isWellFormed, hhigh, if_true, hs.1, ih hs.2, Bool.and_self]
  | case3 c hhigh => cases hs
  | case4 c cs hhigh ih =>
      rw [Bool.and_eq_true] at hs
      rw [List.cons_append, isWellFormed.eq_def]
      simp only [hhigh, Bool.false_eq_true, if_false, hs.1, ih hs.2, Bool.and_self]

end Utf8

namespace Json

/-! ### Tidy texts -/

/-- Well-formed Unicode on one line. -/
structure Tidy (s : JsString) : Prop where
  unbroken : Regex.Unbroken s
  wellFormed : Utf8.WellFormed s

theorem Tidy.append {s t : JsString} (hs : Tidy s) (ht : Tidy t) : Tidy (s ++ t) where
  unbroken := hs.unbroken.append ht.unbroken
  wellFormed := Utf8.wellFormed_append hs.wellFormed ht.wellFormed

theorem tidy_of_ascii {s : JsString} (h : ∀ c ∈ s, 32 ≤ c ∧ c < 128) : Tidy s where
  unbroken c hc := by
    have := h c hc
    omega
  wellFormed := Utf8.wellFormed_of_ascii fun c hc => (h c hc).2

theorem tidy_singleton {c : ℕ} (h : 32 ≤ c ∧ c < 128) : Tidy [c] :=
  tidy_of_ascii fun d hd => by
    rw [List.mem_singleton.1 hd]
    exact h

theorem tidy_cons {c : ℕ} {s : JsString} (h : 32 ≤ c ∧ c < 128) (hs : Tidy s) : Tidy (c :: s) :=
  (tidy_singleton h).append hs

/-! ### Strings -/

theorem hexChar_ascii {n : ℕ} (h : n < 16) : 32 ≤ hexChar n ∧ hexChar n < 128 := by
  unfold hexChar
  split <;> omega

theorem tidy_unicodeEscape {c : ℕ} (h : c < 0x10000) : Tidy (unicodeEscape c) := by
  have h₁ := hexChar_ascii (show c / 4096 < 16 by omega)
  have h₂ := hexChar_ascii (show c / 256 % 16 < 16 by omega)
  have h₃ := hexChar_ascii (show c / 16 % 16 < 16 by omega)
  have h₄ := hexChar_ascii (show c % 16 < 16 by omega)
  refine tidy_of_ascii fun d hd => ?_
  unfold unicodeEscape at hd
  simp only [List.mem_cons, List.not_mem_nil, or_false] at hd
  rcases hd with rfl | rfl | rfl | rfl | rfl | rfl <;> omega

/-- A code unit that is no surrogate. -/
theorem tidy_writeChar {c : ℕ} (h : c < 0xD800 ∨ 0xE000 ≤ c) (hmax : c < 0x10000) :
    Tidy (writeChar c) := by
  have htwo : ∀ d, 32 ≤ d ∧ d < 128 → Tidy [92, d] := fun d hd => tidy_cons (by omega) (tidy_singleton hd)
  unfold writeChar
  split_ifs with h₁ h₂ h₃ h₄ h₅ h₆ h₇ h₈
  · exact htwo _ (by omega)
  · exact htwo _ (by omega)
  · exact htwo _ (by omega)
  · exact htwo _ (by omega)
  · exact htwo _ (by omega)
  · exact htwo _ (by omega)
  · exact htwo _ (by omega)
  · exact tidy_unicodeEscape hmax
  · refine ⟨fun d hd => ?_, ?_⟩
    · rw [List.mem_singleton.1 hd]
      omega
    · have hhigh : Utf8.isHigh c = false := by
        simp only [Utf8.isHigh, Bool.and_eq_false_iff, decide_eq_false_iff_not]
        omega
      have hlow : Utf8.isLow c = false := by
        simp only [Utf8.isLow, Bool.and_eq_false_iff, decide_eq_false_iff_not]
        omega
      unfold Utf8.WellFormed Utf8.isWellFormed
      rw [if_neg (by rw [hhigh]; exact Bool.false_ne_true), hlow, decide_eq_true hmax]
      rfl

theorem tidy_writeChars {s : JsString} (h : s.Units) : Tidy (writeChars s) := by
  fun_induction writeChars s with
  | case1 => exact tidy_of_ascii fun c hc => by cases hc
  | case2 c hhigh d ds hlow ih =>
      have hpair : Tidy [c, d] := by
        refine ⟨fun e he => ?_, ?_⟩
        · simp only [List.mem_cons, List.not_mem_nil, or_false] at he
          omega
        · have hh : Utf8.isHigh c = true := by
            simp only [Utf8.isHigh, Bool.and_eq_true, decide_eq_true_eq]
            omega
          have hl : Utf8.isLow d = true := by
            simp only [Utf8.isLow, Bool.and_eq_true, decide_eq_true_eq]
            omega
          simp [Utf8.WellFormed, Utf8.isWellFormed, hh, hl]
      exact hpair.append (ih fun e he => h e (List.mem_cons_of_mem _ (List.mem_cons_of_mem _ he)))
  | case3 c hhigh d ds hlow ih =>
      exact (tidy_unicodeEscape (h c List.mem_cons_self)).append
        (ih fun e he => h e (List.mem_cons_of_mem _ he))
  | case4 c hhigh => exact tidy_unicodeEscape (h c List.mem_cons_self)
  | case5 c cs hhigh hlow ih =>
      exact (tidy_unicodeEscape (h c List.mem_cons_self)).append
        (ih fun e he => h e (List.mem_cons_of_mem _ he))
  | case6 c cs hhigh hlow ih =>
      have hmax := h c List.mem_cons_self
      exact (tidy_writeChar (by omega) hmax).append (ih fun e he => h e (List.mem_cons_of_mem _ he))

theorem tidy_quote {s : JsString} (h : s.Units) : Tidy (quote s) :=
  (tidy_cons (by decide) (tidy_writeChars h)).append (tidy_singleton (by decide))

/-! ### Numbers -/

/-- A character of a number. -/
def NumberChar (c : ℕ) : Prop := JsString.isDigit c = true ∨ c ∈ [43, 45, 46, 69, 101]

/-- The text begins with characters of a number, and the rest of it follows. -/
def Spells (s rest : JsString) : Prop := ∃ used, s = used ++ rest ∧ ∀ c ∈ used, NumberChar c

theorem Spells.refl (s : JsString) : Spells s s := ⟨[], rfl, fun c hc => by cases hc⟩

theorem Spells.trans {s t u : JsString} (h : Spells s t) (h' : Spells t u) : Spells s u := by
  obtain ⟨used, rfl, hused⟩ := h
  obtain ⟨used', rfl, hused'⟩ := h'
  refine ⟨used ++ used', (List.append_assoc ..).symm, fun c hc => ?_⟩
  rcases List.mem_append.1 hc with hc | hc
  · exact hused c hc
  · exact hused' c hc

theorem Spells.cons {c : ℕ} {s t : JsString} (hc : NumberChar c) (h : Spells s t) : Spells (c :: s) t :=
  Spells.trans ⟨[c], rfl, fun _ hd => List.mem_singleton.1 hd ▸ hc⟩ h

theorem digits_spells {s ds rest : JsString} (h : digits s = some (ds, rest)) : Spells s rest := by
  unfold digits at h
  dsimp only at h
  split at h
  · cases h
  · cases h
    refine ⟨s.takeWhile JsString.isDigit, ?_, fun c hc => Or.inl (List.mem_takeWhile_imp hc)⟩
    exact (List.prefix_iff_eq_append.1 (List.takeWhile_prefix _)).symm

theorem intPart_spells {s ds rest : JsString} (h : intPart s = some (ds, rest)) : Spells s rest := by
  unfold intPart at h
  split at h
  · cases h
    exact (Spells.refl _).cons (Or.inl rfl)
  · exact digits_spells h

theorem fracPart_spells {s ds rest : JsString} (h : fracPart s = some (ds, rest)) : Spells s rest := by
  unfold fracPart at h
  split at h
  · exact (digits_spells h).cons (Or.inr (by decide))
  · cases h
    exact Spells.refl _

theorem expPart_spells {s rest : JsString} {e : ℤ} (h : expPart s = some (e, rest)) : Spells s rest := by
  unfold expPart at h
  split at h
  · next c tail =>
    split at h
    · next hc =>
      have hmark : NumberChar c := by
        rcases hc with rfl | rfl <;> exact Or.inr (by decide)
      split at h
      · obtain ⟨p, hp, heq⟩ := Option.map_eq_some_iff.1 h
        cases heq
        exact ((digits_spells hp).cons (Or.inr (by decide))).cons hmark
      · obtain ⟨p, hp, heq⟩ := Option.map_eq_some_iff.1 h
        cases heq
        exact ((digits_spells hp).cons (Or.inr (by decide))).cons hmark
      · obtain ⟨p, hp, heq⟩ := Option.map_eq_some_iff.1 h
        cases heq
        exact (digits_spells hp).cons hmark
    · cases h
      exact Spells.refl _
  · cases h
    exact Spells.refl _

theorem unsigned_spells {s rest : JsString} {n : ℚ} (h : unsigned s = some (n, rest)) : Spells s rest := by
  unfold unsigned at h
  obtain ⟨i, hi, h⟩ := Option.bind_eq_some_iff.1 h
  obtain ⟨f, hf, h⟩ := Option.bind_eq_some_iff.1 h
  obtain ⟨e, he, heq⟩ := Option.map_eq_some_iff.1 h
  cases heq
  exact ((intPart_spells hi).trans (fracPart_spells hf)).trans (expPart_spells he)

theorem number_spells {s rest : JsString} {n : ℚ} (h : number s = some (n, rest)) : Spells s rest := by
  unfold number at h
  split at h
  · obtain ⟨p, hp, heq⟩ := Option.map_eq_some_iff.1 h
    cases heq
    exact (unsigned_spells hp).cons (Or.inr (by decide))
  · exact unsigned_spells h

/-- The text of a number is ASCII. -/
theorem tidy_number {number : ℚ → JsString} {n : ℚ} (h : ReadsBack number n) : Tidy (number n) := by
  have hread := h.2 [] fun c hc => by cases hc
  rw [List.append_nil] at hread
  obtain ⟨used, hused, hchars⟩ := number_spells hread
  rw [hused, List.append_nil]
  refine tidy_of_ascii fun c hc => ?_
  rcases hchars c hc with hdigit | hmark
  · have hrange : 48 ≤ c ∧ c ≤ 57 := by simpa [JsString.isDigit] using hdigit
    omega
  · simp only [List.mem_cons, List.not_mem_nil, or_false] at hmark
    omega

/-! ### Values -/

mutual

/-- All strings in a value are strings of code units. -/
def Units : Json → Prop
  | str s => s.Units
  | arr xs => UnitsList xs
  | obj es => UnitsEntries es
  | _ => True

def UnitsList : List Json → Prop
  | [] => True
  | x :: xs => Units x ∧ UnitsList xs

def UnitsEntries : List (JsString × Json) → Prop
  | [] => True
  | (k, v) :: es => k.Units ∧ Units v ∧ UnitsEntries es

end

theorem UnitsList.mem {x : Json} {xs : List Json} (h : UnitsList xs) (hx : x ∈ xs) : Units x := by
  induction xs with
  | nil => cases hx
  | cons y ys ih =>
      rcases List.mem_cons.1 hx with rfl | hx
      · exact h.1
      · exact ih h.2 hx

theorem UnitsEntries.mem {e : JsString × Json} {es : List (JsString × Json)} (h : UnitsEntries es)
    (he : e ∈ es) : e.1.Units ∧ Units e.2 := by
  induction es with
  | nil => cases he
  | cons f fs ih =>
      rcases List.mem_cons.1 he with rfl | he
      · exact ⟨h.1, h.2.1⟩
      · exact ih h.2.2 he

variable {number : ℚ → JsString}

theorem tidy_stringifyList {xs : List Json} (h : ∀ x ∈ xs, Tidy (stringify number x)) :
    Tidy (stringifyList number xs) := by
  induction xs with
  | nil => exact tidy_of_ascii fun c hc => by cases hc
  | cons x xs ih =>
      obtain ⟨hx, hxs⟩ := List.forall_mem_cons.1 h
      cases xs with
      | nil => exact hx
      | cons y ys => exact hx.append (tidy_cons (by decide) (ih hxs))

theorem tidy_stringifyEntries {es : List (JsString × Json)}
    (h : ∀ e ∈ es, e.1.Units ∧ Tidy (stringify number e.2)) : Tidy (stringifyEntries number es) := by
  induction es with
  | nil => exact tidy_of_ascii fun c hc => by cases hc
  | cons e es ih =>
      obtain ⟨⟨hkey, hvalue⟩, hes⟩ := List.forall_mem_cons.1 h
      obtain ⟨k, v⟩ := e
      cases es with
      | nil => exact (tidy_quote hkey).append (tidy_cons (by decide) hvalue)
      | cons f fs =>
          exact (tidy_quote hkey).append
            (tidy_cons (by decide) (hvalue.append (tidy_cons (by decide) (ih hes))))

/-- **Written values are tidy.** -/
theorem tidy_stringify {v : Json} (hw : Writable number v) (hu : Units v) :
    Tidy (stringify number v) := by
  induction hsize : v.size using Nat.strongRecOn generalizing v with
  | ind n ih =>
      cases v with
      | null => exact tidy_of_ascii (show ∀ c ∈ js "null", 32 ≤ c ∧ c < 128 by decide)
      | bool b =>
          cases b with
          | false => exact tidy_of_ascii (show ∀ c ∈ js "false", 32 ≤ c ∧ c < 128 by decide)
          | true => exact tidy_of_ascii (show ∀ c ∈ js "true", 32 ≤ c ∧ c < 128 by decide)
      | num n => exact tidy_number hw
      | str s => exact tidy_quote hu
      | arr xs =>
          have helements : ∀ x ∈ xs, Tidy (stringify number x) := fun x hx =>
            ih x.size (hsize ▸ size_mem_arr hx) (hw.mem hx) (UnitsList.mem hu hx) rfl
          exact (tidy_cons (by decide) (tidy_stringifyList helements)).append (tidy_singleton (by decide))
      | obj es =>
          have hentries : ∀ e ∈ es, e.1.Units ∧ Tidy (stringify number e.2) := fun e he =>
            ⟨(UnitsEntries.mem hu he).1,
              ih e.2.size (hsize ▸ size_mem_obj he) (hw.2.mem he) (UnitsEntries.mem hu he).2 rfl⟩
          exact (tidy_cons (by decide) (tidy_stringifyEntries hentries)).append (tidy_singleton (by decide))

end Json
