import VibeRouter.Lib.RegexForward
import VibeRouter.Protect.Settled

/-! # Texts put together from pieces

A scan of the pieces of a text does not see all that a scan of the text sees: a number may go over a
place where two pieces meet, or stand in another piece than the keyword before it, and a card number
may be part of a longer row.  `Reassembles` says that this is so, and where every piece has been
scanned with nothing seen, it is the only thing that a scan of the text can see
(`seen_flatten_iff`). -/

namespace VibeRouter

open Regex

variable {pieces : List JsString} {pre span post text : JsString}

/-! ### Places where pieces meet -/

/-- A piece ends and another one begins between the two texts. -/
def Seam (pieces : List JsString) (pre post : JsString) : Prop :=
  ∃ ps qs, pieces = ps ++ qs ∧ ps ≠ [] ∧ qs ≠ [] ∧ pre = ps.flatten ∧ post = qs.flatten

/-- A piece begins where the span begins, or inside it. -/
def Crosses (pieces : List JsString) (pre span post : JsString) : Prop :=
  ∃ x y, span = x ++ y ∧ y ≠ [] ∧ Seam pieces (pre ++ x) (y ++ post)

theorem Seam.cons (h : Seam pieces pre post) (p : JsString) : Seam (p :: pieces) (p ++ pre) post := by
  obtain ⟨ps, qs, rfl, -, hqs, rfl, hpost⟩ := h
  exact ⟨p :: ps, qs, rfl, List.cons_ne_nil p ps, hqs, rfl, hpost⟩

theorem Crosses.cons (h : Crosses pieces pre span post) (p : JsString) :
    Crosses (p :: pieces) (p ++ pre) span post := by
  obtain ⟨x, y, hspan, hy, hseam⟩ := h
  refine ⟨x, y, hspan, hy, ?_⟩
  rw [List.append_assoc]
  exact hseam.cons p

/-- The first piece ends at the text, or inside it. -/
theorem crosses_first {p rest : JsString} {x y : JsString} (hy : y ≠ []) (hp : p = pre ++ x)
    (hrest : pieces.flatten = y ++ rest) : Crosses (p :: pieces) pre (x ++ y) rest := by
  refine ⟨x, y, rfl, hy, [p], pieces, rfl, List.cons_ne_nil p [], ?_, ?_, hrest.symm⟩
  · rintro rfl
    exact hy (List.append_eq_nil_iff.1 hrest.symm).1
  · rw [List.flatten_singleton, hp]

/-- What no seam crosses lies in one piece, and not at its beginning, except in the first. -/
theorem in_one_piece (hsplit : pieces.flatten = pre ++ (span ++ post)) (hne : span ≠ [])
    (h : ¬Crosses pieces pre span post) :
    ∃ ps x y qs, pieces = ps ++ (x ++ (span ++ y)) :: qs ∧ pre = ps.flatten ++ x ∧
      post = y ++ qs.flatten ∧ (ps = [] ∨ x ≠ []) := by
  induction pieces generalizing pre with
  | nil => exact absurd (List.append_eq_nil_iff.1 (List.append_eq_nil_iff.1 hsplit.symm).2).1 hne
  | cons p pieces ih =>
      rw [List.flatten_cons] at hsplit
      rcases List.append_eq_append_iff.1 hsplit with ⟨a, rfl, hrest⟩ | ⟨c, hp, hspan⟩
      · have hmore : ¬Crosses pieces a span post := fun hcrosses => h (hcrosses.cons p)
        obtain ⟨ps, x, y, qs, rfl, rfl, hpost, hplace⟩ := ih hrest hmore
        refine ⟨p :: ps, x, y, qs, rfl, by rw [List.flatten_cons, List.append_assoc], hpost, Or.inr ?_⟩
        rcases hplace with rfl | hx
        · rintro rfl
          refine h (crosses_first (x := []) hne ?_ ?_)
          · simp
          · rw [hrest]
            rfl
        · exact hx
      · rcases List.append_eq_append_iff.1 hspan with ⟨y, rfl, hpost⟩ | ⟨d, rfl, hpost⟩
        · exact ⟨[], pre, y, pieces, by rw [hp]; rfl, rfl, hpost, Or.inl rfl⟩
        · cases d with
          | nil => exact ⟨[], pre, [], pieces, by simp [hp], rfl, hpost.symm, Or.inl rfl⟩
          | cons z d => exact absurd (crosses_first (List.cons_ne_nil z d) hp hpost) h

/-! ### Pieces that have been scanned -/

/-- Every piece stands in a text in which nothing is seen, and is parted there from what follows it;
the first one also from what precedes it.  A single character says nothing by itself. -/
structure Scanned (pieces : List JsString) : Prop where
  first : ∀ p ∈ pieces.head?, ∃ a b, ¬Seen (a ++ (p ++ b)) ∧ (∀ x ∈ a.getLast?, Parts x) ∧
    ∀ x ∈ b.head?, Parts x
  each : ∀ p ∈ pieces, p.length ≤ 1 ∨ ∃ a b, ¬Seen (a ++ (p ++ b)) ∧ ∀ x ∈ b.head?, Parts x

/-- What no seam crosses stands in a scanned text with the same neighbours, or parted there. -/
theorem Scanned.stands (hscanned : Scanned pieces) (hsplit : pieces.flatten = pre ++ (span ++ post))
    (hne : span ≠ []) (h : ¬Crosses pieces pre span post) :
    ∃ c d, ¬Seen (c ++ (span ++ d)) ∧ (∀ z ∈ c.getLast?, z ∈ pre.getLast? ∨ Parts z) ∧
      ∀ z ∈ d.head?, z ∈ post.head? ∨ Parts z := by
  obtain ⟨ps, x, y, qs, rfl, rfl, rfl, hplace⟩ := in_one_piece hsplit hne h
  have hafter : ∀ b : JsString, (∀ z ∈ b.head?, Parts z) →
      ∀ z ∈ (y ++ b).head?, z ∈ (y ++ qs.flatten).head? ∨ Parts z := by
    intro b hb z hz
    cases y with
    | nil => exact Or.inr (hb z hz)
    | cons w y => exact Or.inl hz
  have hbefore : ∀ a : JsString, x ≠ [] →
      ∀ z ∈ (a ++ x).getLast?, z ∈ (ps.flatten ++ x).getLast? ∨ Parts z := by
    intro a hx z hz
    rw [List.getLast?_append_of_ne_nil _ hx] at hz ⊢
    exact Or.inl hz
  have hshape : ∀ a b : JsString, (a ++ x) ++ (span ++ (y ++ b)) = a ++ ((x ++ (span ++ y)) ++ b) := by
    intro a b
    simp only [List.append_assoc]
  by_cases hx : x = []
  · obtain rfl : ps = [] := hplace.resolve_right (not_not_intro hx)
    obtain ⟨a, b, hclean, ha, hb⟩ := hscanned.first _ rfl
    rw [← hshape] at hclean
    refine ⟨a ++ x, y ++ b, hclean, fun z hz => Or.inr (ha z ?_), hafter b hb⟩
    rwa [hx, List.append_nil] at hz
  · rcases hscanned.each _ (List.mem_append_right ps List.mem_cons_self) with hshort | ⟨a, b, hclean, hb⟩
    · have hxlen := List.length_pos_iff.2 hx
      have hspanlen := List.length_pos_iff.2 hne
      simp only [List.length_append] at hshort
      omega
    · rw [← hshape] at hclean
      exact ⟨a ++ x, y ++ b, hclean, hbefore a hx, hafter b hb⟩

/-! ### Rows for card numbers -/

/-- The characters between two parting ones that have a card number. -/
theorem HasCard.row (h : HasCard text) :
    ∃ pre row post, text = pre ++ (row ++ post) ∧ (∀ x ∈ pre.getLast?, Parts x) ∧
      (∀ x ∈ post.head?, Parts x) ∧ (∀ x ∈ row, ¬Parts x) ∧ HasCard row := by
  induction hn : text.length using Nat.strong_induction_on generalizing text with
  | _ n ih =>
      by_cases hall : ∀ x ∈ text, ¬Parts x
      · exact ⟨[], text, [], (List.append_nil text).symm, by simp, by simp, hall, h⟩
      simp only [not_forall, not_not] at hall
      obtain ⟨x, hmem, hx⟩ := hall
      obtain ⟨a, b, rfl⟩ := List.append_of_mem hmem
      have hlength : (a ++ x :: b).length = a.length + (b.length + 1) := List.length_append
      rcases (hasCard_parted hx).1 h with ha | hb
      · obtain ⟨pre, row, post, rfl, hpre, hpost, hrow, hcard⟩ := ih a.length (by omega) ha rfl
        refine ⟨pre, row, post ++ x :: b, by simp, hpre, ?_, hrow, hcard⟩
        cases post with
        | nil =>
            intro z hz
            cases hz
            exact hx
        | cons y post => exact hpost
      · obtain ⟨pre, row, post, rfl, hpre, hpost, hrow, hcard⟩ := ih b.length (by omega) hb rfl
        refine ⟨a ++ x :: pre, row, post, by simp, ?_, hpost, hrow, hcard⟩
        rw [List.getLast?_append_of_ne_nil _ (List.cons_ne_nil x pre)]
        cases pre with
        | nil =>
            intro z hz
            cases hz
            exact hx
        | cons y pre =>
            rw [List.getLast?_cons_cons]
            exact hpre

theorem hasCard_of_row {row : JsString} (hpre : ∀ x ∈ pre.getLast?, Parts x)
    (hpost : ∀ x ∈ post.head?, Parts x) (h : HasCard row) : HasCard (pre ++ (row ++ post)) := by
  have hright : HasCard (row ++ post) := by
    cases post with
    | nil => rwa [List.append_nil]
    | cons x post => exact (hasCard_parted (hpost x rfl)).2 (Or.inl h)
  rcases List.eq_nil_or_concat pre with rfl | ⟨pre, x, rfl⟩
  · exact hright
  · have hx : Parts x := hpre x (by simp)
    have hshape : pre.concat x ++ (row ++ post) = pre ++ x :: (row ++ post) := by simp
    rw [hshape]
    exact (hasCard_parted hx).2 (Or.inr hright)

/-! ### What a scan of the whole sees -/

/-- The last `n` characters, and what precedes them. -/
theorem take_append_lastOf (n : ℕ) (s : JsString) : s.take (s.length - n) ++ lastOf n s = s :=
  List.take_append_drop _ _

theorem lastOf_append (n : ℕ) (a s : JsString) : ∃ b, lastOf n (a ++ s) = b ++ lastOf n s := by
  refine ⟨a.drop (a.length + s.length - n), ?_⟩
  unfold lastOf
  rw [List.length_append, List.drop_append]
  congr 2
  omega

/-- What is seen across the places where the pieces meet: a card number, or an identifier, there, or a
number with its keyword and what is between them. -/
inductive Reassembles (pieces : List JsString) : Prop
  | card {pre row post : JsString} (split : pieces.flatten = pre ++ (row ++ post))
      (crosses : Crosses pieces pre row post) (before : ∀ x ∈ pre.getLast?, Parts x)
      (after : ∀ x ∈ post.head?, Parts x) (inside : ∀ x ∈ row, ¬Parts x) (h : HasCard row)
  | number {pre span post : JsString} (split : pieces.flatten = pre ++ (span ++ post))
      (crosses : Crosses pieces pre span post) (alone : Alone pre post) (h : ∀ p, Identifies p span)
  | ssn {pre num post : JsString} (split : pieces.flatten = pre ++ (num ++ post))
      (crosses : Crosses pieces (pre.take (pre.length - 40)) (lastOf 40 pre ++ num) post)
      (alone : Alone pre post) (digits : Digits 9 num)
      (valid : validSsnParts (num.slice 0 3) (num.slice 3 5) (num.drop 5) = true)
      (keyword : SSN_KEYWORD.test (lastOf 40 pre) = true)
  | account {pre num post : JsString} {n : ℕ} (split : pieces.flatten = pre ++ (num ++ post))
      (crosses : Crosses pieces (pre.take (pre.length - 30)) (lastOf 30 pre ++ num) post)
      (alone : Alone pre post) (digits : Digits n num) (least : 6 ≤ n) (most : n ≤ 17)
      (keyword : ACCOUNT_KEYWORD.test (lastOf 30 pre) = true)

/-- Neighbours that are the same or part are neighbours of a number that stands alone. -/
theorem Alone.of_neighbours {c d : JsString} (h : Alone pre post)
    (hc : ∀ z ∈ c.getLast?, z ∈ pre.getLast? ∨ Parts z)
    (hd : ∀ z ∈ d.head?, z ∈ post.head? ∨ Parts z) : Alone c d where
  before z hz := (hc z hz).elim (h.before z) Parts.digitOrDash
  after z hz := (hd z hz).elim (h.after z) Parts.digitOrDash

/-- A number with a keyword in the window before it stands in a scanned text, if no seam crosses the
window and the number. -/
theorem Scanned.window (hscanned : Scanned pieces) {n : ℕ} {num : JsString}
    (hsplit : pieces.flatten = pre ++ (num ++ post)) (hwindow : lastOf n pre ≠ [])
    (halone : Alone pre post)
    (h : ¬Crosses pieces (pre.take (pre.length - n)) (lastOf n pre ++ num) post) :
    ∃ c d, ¬Seen ((c ++ lastOf n pre) ++ (num ++ d)) ∧ Alone (c ++ lastOf n pre) d := by
  have hshape : pieces.flatten =
      pre.take (pre.length - n) ++ ((lastOf n pre ++ num) ++ post) := by
    rw [hsplit, List.append_assoc, ← List.append_assoc _ (lastOf n pre), take_append_lastOf]
  have hne : lastOf n pre ++ num ≠ [] := fun hnil => hwindow (List.append_eq_nil_iff.1 hnil).1
  obtain ⟨c, d, hclean, -, hd⟩ := hscanned.stands hshape hne h
  refine ⟨c, d, by simpa only [List.append_assoc] using hclean, halone.of_neighbours ?_ hd⟩
  intro z hz
  rw [List.getLast?_append_of_ne_nil _ hwindow] at hz
  refine Or.inl ?_
  rwa [← take_append_lastOf n pre, List.getLast?_append_of_ne_nil _ hwindow]

theorem lastOf_ne_nil_of_test {r : Regex} {n : ℕ} {s : JsString} (hr : r.test [] = false)
    (h : r.test (lastOf n s) = true) : lastOf n s ≠ [] := by
  intro hnil
  rw [hnil, hr] at h
  cases h

theorem lastOf_of_window {n : ℕ} (s c : JsString) :
    ∃ b, lastOf n (c ++ lastOf n s) = b ++ lastOf n s := by
  obtain ⟨b, hb⟩ := lastOf_append n c (lastOf n s)
  have hlength : lastOf n (lastOf n s) = lastOf n s := by
    unfold lastOf
    rw [List.length_drop]
    have hnone : s.length - (s.length - n) - n = 0 := by omega
    rw [hnone, List.drop_zero]
  exact ⟨b, hb.trans (congrArg (b ++ ·) hlength)⟩

/-- **A scan of the whole sees what is reassembled from scanned pieces, and nothing else.** -/
theorem seen_flatten_iff (hscanned : Scanned pieces) : Seen pieces.flatten ↔ Reassembles pieces := by
  constructor
  · intro h
    cases h with
    | card h =>
        obtain ⟨pre, row, post, hsplit, hpre, hpost, hrow, hcard⟩ := h.row
        by_cases hcrosses : Crosses pieces pre row post
        · exact .card hsplit hcrosses hpre hpost hrow hcard
        · have hne : row ≠ [] := fun hnil => not_hasCard_nil (hnil ▸ hcard)
          obtain ⟨c, d, hclean, hc, hd⟩ := hscanned.stands hsplit hne hcrosses
          refine absurd (Seen.card (hasCard_of_row ?_ ?_ hcard)) hclean
          · exact fun z hz => (hc z hz).elim (hpre z) id
          · exact fun z hz => (hd z hz).elim (hpost z) id
    | @number pre span post split alone h =>
        by_cases hcrosses : Crosses pieces pre span post
        · exact .number split hcrosses alone h
        · obtain ⟨c, d, hclean, hc, hd⟩ := hscanned.stands split (h []).numeral.ne_nil hcrosses
          exact absurd (Seen.number rfl (alone.of_neighbours hc hd) h) hclean
    | @ssn pre num post split alone digits valid keyword =>
        by_cases hcrosses : Crosses pieces (pre.take (pre.length - 40)) (lastOf 40 pre ++ num) post
        · exact .ssn split hcrosses alone digits valid keyword
        · obtain ⟨c, d, hclean, halone⟩ :=
            hscanned.window split (lastOf_ne_nil_of_test rfl keyword) alone hcrosses
          obtain ⟨b, hb⟩ := lastOf_of_window pre c
          refine absurd (Seen.ssn rfl halone digits valid ?_) hclean
          rw [hb]
          exact test_append_left rfl b keyword
    | @account pre num post n split alone digits least most keyword =>
        by_cases hcrosses : Crosses pieces (pre.take (pre.length - 30)) (lastOf 30 pre ++ num) post
        · exact .account split hcrosses alone digits least most keyword
        · obtain ⟨c, d, hclean, halone⟩ :=
            hscanned.window split (lastOf_ne_nil_of_test rfl keyword) alone hcrosses
          obtain ⟨b, hb⟩ := lastOf_of_window pre c
          refine absurd (Seen.account rfl halone digits least most ?_) hclean
          rw [hb]
          exact test_append_left rfl b keyword
  · intro h
    cases h with
    | card split crosses before after inside h =>
        rw [split]
        exact .card (hasCard_of_row before after h)
    | number split crosses alone h => exact .number split alone h
    | ssn split crosses alone digits valid keyword => exact .ssn split alone digits valid keyword
    | account split crosses alone digits least most keyword =>
        exact .account split alone digits least most keyword

end VibeRouter
