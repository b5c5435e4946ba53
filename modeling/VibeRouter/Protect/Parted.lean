import VibeRouter.Protect.MissedCards

/-! # Parted texts

A character that is neither a digit nor a space nor a dash parts a text: no row of digits reaches
across it, and what stands next to it stands alone.  So a reading for card numbers reads the two
sides of it one after the other (`scanCards_parted`). -/

namespace VibeRouter

open Regex

/-- Neither a digit nor a separator of digits. -/
structure Parts (x : ℕ) : Prop where
  digitOrDash : digitOrDash x = false
  spaceOrDash : spaceOrDash x = false

variable {x : ℕ} {a b : JsString}

theorem Row.notMem {n : ℕ} {span : JsString} (hx : Parts x) (h : Row n span) : x ∉ span := by
  have hdigit : ∀ {d}, JsString.isDigit d = true → x ≠ d := by
    intro d hd heq
    have hboth := digitOrDash_of_isDigit hd
    rw [← heq, hx.digitOrDash] at hboth
    cases hboth
  induction h with
  | one hd => exact fun hmem => hdigit hd (List.mem_singleton.1 hmem)
  | next hd _ ih =>
      intro hmem
      rcases List.mem_cons.1 hmem with heq | hmem
      · exact hdigit hd heq
      · exact ih hmem
  | apart hd hs _ ih =>
      intro hmem
      rcases List.mem_cons.1 hmem with heq | hmem
      · exact hdigit hd heq
      rcases List.mem_cons.1 hmem with heq | hmem
      · rw [← heq, hx.spaceOrDash] at hs
        cases hs
      · exact ih hmem

/-- A text before the parting character ends before it. -/
theorem split_parted {s span post : JsString} (h : s ++ x :: b = span ++ post) (hx : x ∉ span) :
    ∃ q, s = span ++ q ∧ post = q ++ x :: b := by
  rcases List.append_eq_append_iff.1 h with ⟨q, hspan, hrest⟩ | ⟨q, hs, hpost⟩
  · cases q with
    | nil => exact ⟨[], by rw [hspan, List.append_nil, List.append_nil], hrest.symm⟩
    | cons y q =>
        obtain ⟨rfl, -⟩ := List.cons.inj hrest
        refine absurd ?_ hx
        rw [hspan]
        exact List.mem_append_right _ List.mem_cons_self
  · exact ⟨q, hs, hpost⟩

theorem CardShape.notMem {pre span post : JsString} (hx : Parts x) (h : CardShape pre span post) :
    x ∉ span := by
  obtain ⟨n, -, -, hrow⟩ := h.row
  exact hrow.notMem hx

theorem CardShape.ne_nil {pre span post : JsString} (h : CardShape pre span post) : span ≠ [] := by
  obtain ⟨n, -, -, hrow⟩ := h.row
  exact hrow.ne_nil

/-! ### The left side -/

theorem cardShape_left (hx : Parts x) {pre span q : JsString} :
    CardShape pre span (q ++ x :: b) ↔ CardShape pre span q := by
  have hafter : (∀ y ∈ (q ++ x :: b).head?, digitOrDash y = false) ↔
      ∀ y ∈ q.head?, digitOrDash y = false := by
    cases q with
    | nil =>
        constructor
        · exact fun _ y hy => by cases hy
        · intro _ y hy
          cases hy
          exact hx.digitOrDash
    | cons y q => exact Iff.rfl
  constructor
  · exact fun h => ⟨⟨h.alone.before, hafter.1 h.alone.after⟩, h.row⟩
  · exact fun h => ⟨⟨h.alone.before, hafter.2 h.alone.after⟩, h.row⟩

theorem longest_left (hx : Parts x) {pre span q : JsString} :
    Longest pre span (q ++ x :: b) ↔ Longest pre span q := by
  constructor
  · intro h
    refine ⟨(cardShape_left hx).1 h.toCardShape, fun span' q' hsplit hshape => ?_⟩
    refine h.longest span' (q' ++ x :: b) ?_ ((cardShape_left hx).2 hshape)
    rw [← List.append_assoc, hsplit, List.append_assoc]
  · intro h
    refine ⟨(cardShape_left hx).2 h.toCardShape, fun span' post' hsplit hshape => ?_⟩
    rw [← List.append_assoc] at hsplit
    obtain ⟨q', hq', rfl⟩ := split_parted hsplit (hshape.notMem hx)
    exact h.longest span' q' hq' ((cardShape_left hx).1 hshape)

theorem Comes.left (hx : Parts x) {pre q : JsString} (h : Comes a pre q) :
    Comes (a ++ x :: b) pre (q ++ x :: b) := by
  induction h with
  | start => exact .start
  | @skip pre post y _ hnone ih =>
      refine ih.skip fun span post' hsplit hshape => ?_
      obtain ⟨q', hq', rfl⟩ := split_parted (s := y :: post) hsplit (hshape.notMem hx)
      exact hnone span q' hq' ((cardShape_left hx).1 hshape)
  | @row pre span post _ hlongest ih =>
      rw [List.append_assoc] at ih
      exact ih.row ((longest_left hx).2 hlongest)

/-- A reading comes to the end of the text. -/
theorem comes_end (text : JsString) : Comes text text [] := by
  have hmore : ∀ (n : ℕ) (pre post : JsString), post.length ≤ n → Comes text pre post →
      ∃ pre', Comes text pre' [] := by
    intro n
    induction n with
    | zero =>
        intro pre post hlength h
        have hnil : post = [] := List.eq_nil_of_length_eq_zero (by omega)
        rw [hnil] at h
        exact ⟨pre, h⟩
    | succ n ih =>
        intro pre post hlength h
        cases post with
        | nil => exact ⟨pre, h⟩
        | cons y post =>
            rw [List.length_cons] at hlength
            cases hexec : CARD.exec pre.reverse (y :: post) with
            | none => exact ih _ post (by omega) (h.skip fun _ _ => exec_card_none hexec)
            | some c =>
                obtain ⟨span, hsplit, hlongest, -⟩ := exec_card hexec
                have hpos := List.length_pos_iff.2 hlongest.toCardShape.ne_nil
                have hlengths := congrArg List.length hsplit
                rw [List.length_cons, List.length_append] at hlengths
                rw [hsplit] at h
                exact ih _ c.rest (by omega) (h.row hlongest)
  obtain ⟨pre, h⟩ := hmore text.length [] text (Nat.le_refl _) .start
  have hsplit := h.split
  rw [List.append_nil] at hsplit
  rwa [← hsplit] at h

/-! ### The right side -/

theorem cardShape_right (hx : Parts x) {pre span post : JsString} :
    CardShape (a ++ x :: pre) span post ↔ CardShape pre span post := by
  have hbefore : (∀ y ∈ (a ++ x :: pre).getLast?, digitOrDash y = false) ↔
      ∀ y ∈ pre.getLast?, digitOrDash y = false := by
    rw [List.getLast?_append_of_ne_nil _ (List.cons_ne_nil x pre)]
    cases pre with
    | nil =>
        constructor
        · exact fun _ y hy => by cases hy
        · intro _ y hy
          cases hy
          exact hx.digitOrDash
    | cons y pre => rw [List.getLast?_cons_cons]
  constructor
  · exact fun h => ⟨⟨hbefore.1 h.alone.before, h.alone.after⟩, h.row⟩
  · exact fun h => ⟨⟨hbefore.2 h.alone.before, h.alone.after⟩, h.row⟩

theorem longest_right (hx : Parts x) {pre span post : JsString} :
    Longest (a ++ x :: pre) span post ↔ Longest pre span post := by
  constructor
  · exact fun h => ⟨(cardShape_right hx).1 h.toCardShape, fun span' post' hsplit hshape =>
      h.longest span' post' hsplit ((cardShape_right hx).2 hshape)⟩
  · exact fun h => ⟨(cardShape_right hx).2 h.toCardShape, fun span' post' hsplit hshape =>
      h.longest span' post' hsplit ((cardShape_right hx).1 hshape)⟩

/-- No row starts with the parting character. -/
theorem no_row_at (hx : Parts x) {pre span post post' : JsString} (h : x :: post = span ++ post') :
    ¬CardShape pre span post' := by
  intro hshape
  obtain ⟨y, span', rfl⟩ := List.exists_cons_of_ne_nil hshape.ne_nil
  obtain ⟨rfl, -⟩ := List.cons.inj h
  exact hshape.notMem hx List.mem_cons_self

theorem Comes.right (hx : Parts x) {pre post : JsString} (h : Comes b pre post) :
    Comes (a ++ x :: b) (a ++ x :: pre) post := by
  induction h with
  | start => exact ((comes_end a).left hx).skip fun _ _ hsplit => no_row_at hx hsplit
  | @skip pre post y _ hnone ih =>
      have hplace : a ++ x :: (pre ++ [y]) = (a ++ x :: pre) ++ [y] := by simp
      rw [hplace]
      exact ih.skip fun span post' hsplit hshape =>
        hnone span post' hsplit ((cardShape_right hx).1 hshape)
  | @row pre span post _ hlongest ih =>
      have hplace : a ++ x :: (pre ++ span) = (a ++ x :: pre) ++ span := by simp
      rw [hplace]
      exact ih.row ((longest_right hx).2 hlongest)

/-! ### Both sides -/

/-- A reading is on the left side, or on the right. -/
theorem Comes.parted (hx : Parts x) {pre post : JsString} (h : Comes (a ++ x :: b) pre post) :
    (∃ q, post = q ++ x :: b ∧ Comes a pre q) ∨ ∃ pre', pre = a ++ x :: pre' ∧ Comes b pre' post := by
  induction h with
  | start => exact Or.inl ⟨a, rfl, .start⟩
  | @skip pre post y _ hnone ih =>
      rcases ih with ⟨q, hq, hcomes⟩ | ⟨pre', rfl, hcomes⟩
      · cases q with
        | nil =>
            obtain ⟨rfl, rfl⟩ := List.cons.inj hq
            have hpre := hcomes.split
            rw [List.append_nil] at hpre
            rw [← hpre]
            exact Or.inr ⟨[], rfl, .start⟩
        | cons z q =>
            obtain ⟨rfl, rfl⟩ := List.cons.inj hq
            refine Or.inl ⟨q, rfl, hcomes.skip fun span q' hsplit hshape => ?_⟩
            refine hnone span (q' ++ x :: b) ?_ ((cardShape_left hx).2 hshape)
            rw [← List.append_assoc, ← hsplit]
            rfl
      · refine Or.inr ⟨pre' ++ [y], by simp, hcomes.skip fun span post' hsplit hshape => ?_⟩
        exact hnone span post' hsplit ((cardShape_right hx).2 hshape)
  | @row pre span post _ hlongest ih =>
      rcases ih with ⟨q, hq, hcomes⟩ | ⟨pre', rfl, hcomes⟩
      · obtain ⟨q', rfl, rfl⟩ := split_parted hq.symm (hlongest.toCardShape.notMem hx)
        exact Or.inl ⟨q', rfl, hcomes.row ((longest_left hx).1 hlongest)⟩
      · refine Or.inr ⟨pre' ++ span, by simp, hcomes.row ((longest_right hx).1 hlongest)⟩

/-- There is a card number among the rows read. -/
def HasCard (text : JsString) : Prop := ∃ pre span post, CardFound text pre span post

/-- **The two sides are read one after the other.** -/
theorem hasCard_parted (hx : Parts x) : HasCard (a ++ x :: b) ↔ HasCard a ∨ HasCard b := by
  constructor
  · intro h
    obtain ⟨pre, span, post, ⟨⟨hcomes, hlongest⟩, hluhn, hissuer⟩⟩ := h
    rcases hcomes.parted hx with ⟨q, hq, hleft⟩ | ⟨pre', rfl, hright⟩
    · obtain ⟨q', rfl, rfl⟩ := split_parted hq.symm (hlongest.toCardShape.notMem hx)
      exact Or.inl ⟨pre, span, q', ⟨hleft, (longest_left hx).1 hlongest⟩, hluhn, hissuer⟩
    · exact Or.inr ⟨pre', span, post, ⟨hright, (longest_right hx).1 hlongest⟩, hluhn, hissuer⟩
  · intro h
    rcases h with ⟨pre, span, q, ⟨⟨hcomes, hlongest⟩, hluhn, hissuer⟩⟩ |
      ⟨pre, span, post, ⟨⟨hcomes, hlongest⟩, hluhn, hissuer⟩⟩
    · have hleft := hcomes.left (b := b) hx
      rw [List.append_assoc] at hleft
      exact ⟨pre, span, q ++ x :: b, ⟨hleft, (longest_left hx).2 hlongest⟩, hluhn, hissuer⟩
    · exact ⟨a ++ x :: pre, span, post, ⟨hcomes.right hx, (longest_right hx).2 hlongest⟩, hluhn,
        hissuer⟩

theorem not_hasCard_nil : ¬HasCard [] := by
  intro h
  obtain ⟨pre, span, post, hfound⟩ := h
  have hsplit := hfound.comes.split
  have hnil := (List.append_eq_nil_iff.1 (List.append_eq_nil_iff.1 hsplit.symm).2).1
  exact hfound.longest.toCardShape.ne_nil hnil

/-- A word of parting characters between two texts. -/
theorem hasCard_around {w : JsString} (hw : ∀ x ∈ w, Parts x) (hne : w ≠ []) :
    HasCard (a ++ (w ++ b)) ↔ HasCard a ∨ HasCard b := by
  induction w generalizing a with
  | nil => exact absurd rfl hne
  | cons x w ih =>
      have hx := hw x List.mem_cons_self
      show HasCard (a ++ x :: (w ++ b)) ↔ _
      rw [hasCard_parted hx]
      cases w with
      | nil => rfl
      | cons y w =>
          have hmore := ih (a := []) (fun z hz => hw z (List.mem_cons_of_mem _ hz))
            (List.cons_ne_nil _ _)
          rw [List.nil_append] at hmore
          rw [hmore, or_iff_right not_hasCard_nil]

end VibeRouter
