import VibeRouter.Lib.RegexShapes
import Mathlib.Computability.Language

/-! # The language of an expression

An expression without look-around and without references to groups reads the words of a language,
whatever stands before and behind them (`Denotes`).  Between `^` and `$` it accepts exactly the
words of this language (`test_whole`). -/

namespace Regex

/-- The expression reads the words of the language and nothing else. -/
def Denotes (r : Regex) (L : Language ℕ) : Prop :=
  ∀ c t, (∃ c' ∈ run r c, c'.rest = t) ↔ ∃ w ∈ L, c.rest = w ++ t

/-- The words of one character of a class. -/
def letters (p : ℕ → Bool) : Language ℕ := {w | ∃ x, p x = true ∧ w = [x]}

theorem denotes_char (p : ℕ → Bool) : Denotes (char p) (letters p) := by
  intro c t
  constructor
  · rintro ⟨c', hc', rfl⟩
    obtain ⟨x, hrest, hx, -⟩ := mem_run_char hc'
    exact ⟨[x], ⟨x, hx, rfl⟩, hrest⟩
  · rintro ⟨w, ⟨x, hx, rfl⟩, hrest⟩
    obtain ⟨before, rest, groups⟩ := c
    cases hrest
    refine ⟨⟨x :: before, t, groups⟩, ?_, rfl⟩
    have hrun : run (char p) ⟨before, x :: t, groups⟩ = [⟨x :: before, t, groups⟩] := run_char_of hx
    exact hrun ▸ List.mem_singleton_self _

theorem Denotes.seq {r s : Regex} {L M : Language ℕ} (hr : Denotes r L) (hs : Denotes s M) :
    Denotes (seq r s) (L * M) := by
  intro c t
  constructor
  · rintro ⟨c', hc', ht⟩
    obtain ⟨c₁, hc₁, hc'⟩ := mem_run_seq.1 hc'
    obtain ⟨v, hv, hrest⟩ := (hr c c₁.rest).1 ⟨c₁, hc₁, rfl⟩
    obtain ⟨w, hw, hrest₁⟩ := (hs c₁ t).1 ⟨c', hc', ht⟩
    refine ⟨v ++ w, Language.append_mem_mul hv hw, ?_⟩
    rw [hrest, hrest₁, List.append_assoc]
  · rintro ⟨u, hu, hrest⟩
    obtain ⟨v, hv, w, hw, rfl⟩ := Language.mem_mul.1 hu
    rw [List.append_assoc] at hrest
    obtain ⟨c₁, hc₁, hrest₁⟩ := (hr c (w ++ t)).2 ⟨v, hv, hrest⟩
    obtain ⟨c', hc', ht⟩ := (hs c₁ t).2 ⟨w, hw, hrest₁⟩
    exact ⟨c', mem_run_seq.2 ⟨c₁, hc₁, hc'⟩, ht⟩

/-- Characters of given classes one after the other. -/
theorem denotes_foldr {α : Type} (p : α → ℕ → Bool) (as : List α) :
    Denotes (as.foldr (fun a r => .seq (char (p a)) r) eps)
      {w | List.Forall₂ (fun x a => p a x = true) w as} := by
  induction as with
  | nil =>
      intro c t
      constructor
      · rintro ⟨c', hc', ht⟩
        rw [List.mem_singleton.1 hc'] at ht
        exact ⟨[], List.Forall₂.nil, ht⟩
      · rintro ⟨w, hw, hrest⟩
        cases hw
        exact ⟨c, List.mem_singleton_self c, hrest⟩
  | cons a as ih =>
      intro c t
      rw [List.foldr_cons, (denotes_char (p a)).seq ih c t]
      refine exists_congr fun w => and_congr_left fun _ => Language.mem_mul.trans ⟨?_, ?_⟩
      · rintro ⟨v, ⟨x, hx, rfl⟩, u, hu, rfl⟩
        exact List.Forall₂.cons hx hu
      · intro hw
        cases hw with
        | cons hx hu => exact ⟨[_], ⟨_, hx, rfl⟩, _, hu, rfl⟩

theorem Denotes.group {r : Regex} {L : Language ℕ} (hr : Denotes r L) (n : ℕ) :
    Denotes (group n r) L := by
  intro c t
  rw [← hr c t]
  constructor
  · rintro ⟨c', hc', ht⟩
    obtain ⟨c₁, hc₁, rfl⟩ := mem_run_group.1 hc'
    exact ⟨c₁, hc₁, ht⟩
  · rintro ⟨c₁, hc₁, ht⟩
    exact ⟨_, mem_run_group.2 ⟨c₁, hc₁, rfl⟩, ht⟩

theorem Denotes.steps {r : Regex} {L : Language ℕ} (hr : Denotes r L) (n : ℕ) (c : Cursor)
    (t : JsString) : (∃ c', Steps (run r) n c c' ∧ c'.rest = t) ↔ ∃ w ∈ L ^ n, c.rest = w ++ t := by
  induction n generalizing c with
  | zero =>
      rw [pow_zero]
      constructor
      · rintro ⟨c', rfl, ht⟩
        exact ⟨[], rfl, ht⟩
      · rintro ⟨w, rfl, hrest⟩
        exact ⟨c, rfl, hrest⟩
  | succ n ih =>
      rw [pow_succ']
      constructor
      · rintro ⟨c', ⟨c₁, hc₁, hsteps⟩, ht⟩
        obtain ⟨v, hv, hrest⟩ := (hr c c₁.rest).1 ⟨c₁, hc₁, rfl⟩
        obtain ⟨w, hw, hrest₁⟩ := (ih c₁).1 ⟨c', hsteps, ht⟩
        refine ⟨v ++ w, Language.append_mem_mul hv hw, ?_⟩
        rw [hrest, hrest₁, List.append_assoc]
      · rintro ⟨u, hu, hrest⟩
        obtain ⟨v, hv, w, hw, rfl⟩ := Language.mem_mul.1 hu
        rw [List.append_assoc] at hrest
        obtain ⟨c₁, hc₁, hrest₁⟩ := (hr c (w ++ t)).2 ⟨v, hv, hrest⟩
        obtain ⟨c', hsteps, ht⟩ := (ih c₁).2 ⟨w, hw, hrest₁⟩
        exact ⟨c', ⟨c₁, hc₁, hsteps⟩, ht⟩

/-- A repetition reads as many words one after the other as its bounds allow. -/
theorem Denotes.rep {r : Regex} {L : Language ℕ} (hr : Denotes r L) (hlen : 0 < r.minLen)
    {least : ℕ} {max : Option ℕ} (hmax : Allows max least) (greedy : Bool) :
    Denotes (rep r least max greedy) {w | ∃ n, least ≤ n ∧ Allows max n ∧ w ∈ L ^ n} := by
  intro c t
  constructor
  · rintro ⟨c', hc', ht⟩
    obtain ⟨n, hn, hallows, hsteps⟩ := (mem_run_rep hlen hmax).1 hc'
    obtain ⟨w, hw, hrest⟩ := (hr.steps n c t).1 ⟨c', hsteps, ht⟩
    exact ⟨w, ⟨n, hn, hallows, hw⟩, hrest⟩
  · rintro ⟨w, ⟨n, hn, hallows, hw⟩, hrest⟩
    obtain ⟨c', hsteps, ht⟩ := (hr.steps n c t).2 ⟨w, hw, hrest⟩
    exact ⟨c', (mem_run_rep hlen hmax).2 ⟨n, hn, hallows, hsteps⟩, ht⟩

/-- Characters of a class one after the other. -/
theorem mem_letters_pow {p : ℕ → Bool} {n : ℕ} {w : JsString} :
    w ∈ letters p ^ n ↔ w.length = n ∧ ∀ x ∈ w, p x = true := by
  induction n generalizing w with
  | zero =>
      rw [pow_zero, Language.mem_one, List.length_eq_zero_iff]
      constructor
      · rintro rfl
        exact ⟨rfl, fun x hx => by cases hx⟩
      · exact And.left
  | succ n ih =>
      rw [pow_succ', Language.mem_mul]
      constructor
      · rintro ⟨v, ⟨x, hx, rfl⟩, u, hu, rfl⟩
        obtain ⟨hlength, hall⟩ := ih.1 hu
        refine ⟨by rw [List.singleton_append, List.length_cons, hlength], ?_⟩
        exact List.forall_mem_cons.2 ⟨hx, hall⟩
      · rintro ⟨hlength, hall⟩
        cases w with
        | nil => cases hlength
        | cons x w =>
            obtain ⟨hx, hall⟩ := List.forall_mem_cons.1 hall
            exact ⟨[x], ⟨x, hx, rfl⟩, w, ih.2 ⟨Nat.succ.inj hlength, hall⟩, rfl⟩

/-- `p+`. -/
theorem denotes_plus (p : ℕ → Bool) (greedy : Bool) :
    Denotes (.rep (char p) 1 none greedy) {w | w ≠ [] ∧ ∀ x ∈ w, p x = true} := by
  have hallows : ∀ n, Allows none n := fun n k hk => by cases hk
  intro c t
  rw [(denotes_char p).rep Nat.one_pos (hallows 1) greedy c t]
  refine exists_congr fun w => and_congr_left fun _ => ?_
  constructor
  · rintro ⟨n, hn, -, hw⟩
    obtain ⟨hlength, hall⟩ := mem_letters_pow.1 hw
    exact ⟨List.ne_nil_of_length_pos (by omega), hall⟩
  · rintro ⟨hne, hall⟩
    exact ⟨w.length, List.length_pos_iff.2 hne, hallows _, mem_letters_pow.2 ⟨rfl, hall⟩⟩

/-- `r?`. -/
theorem Denotes.opt {r : Regex} {L : Language ℕ} (hr : Denotes r L) (hlen : 0 < r.minLen) :
    Denotes (opt r) (1 + L) := by
  have hallows : ∀ n, Allows (some 1) n ↔ n ≤ 1 := fun n =>
    ⟨fun h => h 1 rfl, fun h k hk => by cases hk; exact h⟩
  intro c t
  unfold Regex.opt
  rw [hr.rep hlen ((hallows 0).2 (Nat.zero_le 1)) true c t]
  refine exists_congr fun w => and_congr_left fun _ => ?_
  rw [Language.mem_add, Language.mem_one]
  constructor
  · rintro ⟨n, -, hn, hw⟩
    have hn : n = 0 ∨ n = 1 := by
      have := (hallows n).1 hn
      omega
    rcases hn with rfl | rfl
    · exact Or.inl hw
    · exact Or.inr (pow_one L ▸ hw)
  · rintro (rfl | hw)
    · exact ⟨0, Nat.le_refl 0, (hallows 0).2 (Nat.zero_le 1), rfl⟩
    · exact ⟨1, Nat.zero_le 1, (hallows 1).2 (Nat.le_refl 1), (pow_one L).symm ▸ hw⟩

/-- **Between `^` and `$` the words of the language are accepted.** -/
theorem test_whole {r : Regex} {L : Language ℕ} (hr : Denotes r L) (s : JsString) :
    (Regex.seq bol (Regex.seq r eol)).test s = true ↔ s ∈ L := by
  rw [test_bol_iff]
  have hend : ∀ c c' : Cursor, c' ∈ run eol c ↔ c.rest = [] ∧ c' = c := by
    intro c c'
    rw [run]
    by_cases h : c.rest = []
    · rw [if_pos h, List.mem_singleton]
      exact (and_iff_right h).symm
    · rw [if_neg h]
      exact iff_of_false (by simp) fun h' => h h'.1
  constructor
  · rintro ⟨c, hc⟩
    obtain ⟨c₁, hc₁, hc⟩ := mem_run_seq.1 hc
    obtain ⟨w, hw, hs⟩ := (hr _ []).1 ⟨c₁, hc₁, ((hend c₁ c).1 hc).1⟩
    have hs : s = w := hs.trans (List.append_nil w)
    rw [hs]
    exact hw
  · intro hs
    obtain ⟨c₁, hc₁, hrest⟩ := (hr ⟨[], s, fun _ => none⟩ []).2 ⟨s, hs, (List.append_nil s).symm⟩
    exact ⟨c₁, mem_run_seq.2 ⟨c₁, hc₁, (hend c₁ c₁).2 ⟨hrest, rfl⟩⟩⟩

end Regex
