import VibeRouter.Protect.Identifiers

/-! # How card numbers are read

The expression for cards reads rows of 13 to 19 digits with single spaces or dashes between them,
and takes the longest row that stands alone (`exec_card_iff`).  A search reads such rows from left
to right, each from the place where the last one ended (`mem_cards`). -/

namespace VibeRouter

open Regex

/-! ### Rows of digits -/

/-- `n` digits, with at most one space or dash between two of them. -/
inductive Row : ℕ → JsString → Prop
  | one {d : ℕ} (hd : JsString.isDigit d = true) : Row 1 [d]
  | next {n d : ℕ} {span : JsString} (hd : JsString.isDigit d = true) (more : Row n span) :
      Row (n + 1) (d :: span)
  | apart {n d s : ℕ} {span : JsString} (hd : JsString.isDigit d = true)
      (hs : spaceOrDash s = true) (more : Row n span) : Row (n + 1) (d :: s :: span)

/-- `\\d[ -]?`. -/
def cardDigit : Regex := seq digit (opt (char spaceOrDash))

theorem card_eq : CARD = seq (notBehind digitOrDash)
    (seq (cardDigit.rep 12 (some 18) true) (seq digit (seq (notAhead digitOrDash) eps))) := rfl

theorem run_cardDigit (before rest : JsString) (groups : ℕ → Option JsString) :
    run cardDigit ⟨before, rest, groups⟩ = match rest with
      | d :: s :: t => if JsString.isDigit d then
          (if spaceOrDash s then [⟨s :: d :: before, t, groups⟩, ⟨d :: before, s :: t, groups⟩]
            else [⟨d :: before, s :: t, groups⟩])
          else []
      | [d] => if JsString.isDigit d then [⟨d :: before, [], groups⟩] else []
      | [] => [] := by
  unfold cardDigit digit
  cases rest with
  | nil =>
      rw [run, run_char]
      rfl
  | cons d t =>
      rw [run, run_char]
      cases t with
      | nil =>
          dsimp only
          split
          · rw [List.flatMap_singleton, run_opt_char]
            rfl
          · rfl
      | cons s t =>
          dsimp only
          split
          · rw [List.flatMap_singleton, run_opt_char]
            rfl
          · rfl

/-- What a row of digits is read by. -/
theorem steps_cardDigit {k : ℕ} {c c' : Cursor} :
    (∃ c₁, Steps (run cardDigit) k c c₁ ∧ c' ∈ run digit c₁) ↔
      ∃ span, c.rest = span ++ c'.rest ∧ Row (k + 1) span ∧ c' = c.advance span.length := by
  induction k generalizing c with
  | zero =>
      constructor
      · intro h
        obtain ⟨c₁, rfl, hc'⟩ := h
        obtain ⟨d, hrest, hd, hc'⟩ := mem_run_char hc'
        refine ⟨[d], hrest, .one hd, ?_⟩
        rw [hc']
        unfold Cursor.advance
        rw [hrest]
        rfl
      · intro h
        obtain ⟨span, hrest, hrow, hc'⟩ := h
        cases hrow with
        | @one d hd =>
            refine ⟨c, rfl, ?_⟩
            unfold digit
            rw [run_char, hrest]
            show _ ∈ (if JsString.isDigit d then _ else _)
            rw [if_pos hd]
            exact List.mem_singleton.2 hc'
        | next hd more => cases more
        | apart hd hs more => cases more
  | succ k ih =>
      obtain ⟨before, rest, groups⟩ := c
      constructor
      · intro h
        obtain ⟨c₁, ⟨c₂, hc₂, hsteps⟩, hc'⟩ := h
        obtain ⟨span, hspan, hrow, hc'⟩ := ih.1 ⟨c₁, hsteps, hc'⟩
        rw [run_cardDigit] at hc₂
        match rest, hc₂ with
        | [d], hc₂ =>
            dsimp only at hc₂
            split at hc₂
            · rw [List.mem_singleton.1 hc₂] at hspan
              have hnil := (List.append_eq_nil_iff.1 hspan.symm).1
              rw [hnil] at hrow
              cases hrow
            · cases hc₂
        | d :: s :: t, hc₂ =>
            dsimp only at hc₂
            split at hc₂
            case isFalse => cases hc₂
            case isTrue hd =>
              have hplain : c₂ = ⟨d :: before, s :: t, groups⟩ →
                  ∃ span, d :: s :: t = span ++ c'.rest ∧ Row (k + 1 + 1) span ∧
                    c' = (⟨before, d :: s :: t, groups⟩ : Cursor).advance span.length := by
                intro h
                rw [h] at hspan hc'
                replace hspan : s :: t = span ++ c'.rest := hspan
                refine ⟨d :: span, by rw [hspan]; rfl, .next hd hrow, ?_⟩
                rw [hc']
                show ((⟨before, d :: s :: t, groups⟩ : Cursor).advance 1).advance span.length = _
                rw [Cursor.advance_advance, List.length_cons, Nat.add_comm]
              split at hc₂
              case isFalse => exact hplain (List.mem_singleton.1 hc₂)
              case isTrue hs =>
                rcases List.mem_cons.1 hc₂ with h | hc₂
                · rw [h] at hspan hc'
                  replace hspan : t = span ++ c'.rest := hspan
                  refine ⟨d :: s :: span, by rw [hspan]; rfl, .apart hd hs hrow, ?_⟩
                  rw [hc']
                  show ((⟨before, d :: s :: t, groups⟩ : Cursor).advance 2).advance span.length = _
                  rw [Cursor.advance_advance, List.length_cons, List.length_cons, Nat.add_comm]
                · exact hplain (List.mem_singleton.1 hc₂)
      · intro h
        obtain ⟨span, hspan, hrow, hc'⟩ := h
        replace hspan : rest = span ++ c'.rest := hspan
        cases hrow with
        | @next _ d span hd more =>
            have hnext : c' = (⟨d :: before, span ++ c'.rest, groups⟩ : Cursor).advance span.length := by
              refine hc'.trans ?_
              rw [hspan]
              show _ = ((⟨before, d :: (span ++ c'.rest), groups⟩ : Cursor).advance 1).advance _
              rw [Cursor.advance_advance, List.length_cons, Nat.add_comm]
              rfl
            obtain ⟨c₁, hsteps, hdigit⟩ := ih.2 ⟨span, rfl, more, hnext⟩
            refine ⟨c₁, ⟨_, ?_, hsteps⟩, hdigit⟩
            rw [run_cardDigit, hspan]
            cases hmore : span ++ c'.rest with
            | nil =>
                rw [(List.append_eq_nil_iff.1 hmore).1] at more
                cases more
            | cons s t =>
                rw [List.cons_append, hmore]
                dsimp only
                rw [if_pos hd]
                split
                · exact List.mem_cons_of_mem _ (List.mem_singleton_self _)
                · exact List.mem_singleton_self _
        | @apart _ d s span hd hs more =>
            have hnext : c' = (⟨s :: d :: before, span ++ c'.rest, groups⟩ : Cursor).advance
                span.length := by
              refine hc'.trans ?_
              rw [hspan]
              show _ = ((⟨before, d :: s :: (span ++ c'.rest), groups⟩ : Cursor).advance 2).advance _
              rw [Cursor.advance_advance, Nat.add_comm]
              rfl
            obtain ⟨c₁, hsteps, hdigit⟩ := ih.2 ⟨span, rfl, more, hnext⟩
            refine ⟨c₁, ⟨_, ?_, hsteps⟩, hdigit⟩
            rw [run_cardDigit, hspan]
            show _ ∈ (if JsString.isDigit d then (if spaceOrDash s then _ else _) else _)
            rw [if_pos hd, if_pos hs]
            exact List.mem_cons_self

/-! ### The longest row -/

/-- A span that the expression for cards can read. -/
structure CardShape (pre span post : JsString) : Prop where
  alone : Alone pre post
  row : ∃ n, 13 ≤ n ∧ n ≤ 19 ∧ Row n span

/-- The longest one from a place on. -/
structure Longest (pre span post : JsString) : Prop extends CardShape pre span post where
  longest : ∀ span' post', span ++ post = span' ++ post' → CardShape pre span' post' →
    span'.length ≤ span.length

theorem Row.ne_nil {n : ℕ} {span : JsString} (h : Row n span) : span ≠ [] := by
  cases h with
  | one hd => exact List.cons_ne_nil _ _
  | next hd more => exact List.cons_ne_nil _ _
  | apart hd hs more => exact List.cons_ne_nil _ _

theorem minLen_cardDigit : 0 < cardDigit.minLen := by decide

/-- **What the expression for cards reads.** -/
theorem mem_run_card {pre rest : JsString} {c : Cursor} :
    c ∈ run CARD ⟨pre.reverse, rest, fun _ => none⟩ ↔
      ∃ span, rest = span ++ c.rest ∧ CardShape pre span c.rest ∧
        c = (⟨pre.reverse, rest, fun _ => none⟩ : Cursor).advance span.length := by
  have hallows : Allows (some 18) 12 := fun k hk => by cases hk; decide
  rw [card_eq]
  constructor
  · intro h
    obtain ⟨c₀, hc₀, hrow⟩ := mem_run_seq.1 h
    obtain ⟨rfl, hbefore⟩ := mem_run_notBehind hc₀
    obtain ⟨c₁, hc₁, hlast⟩ := mem_run_seq.1 hrow
    obtain ⟨k, hleast, hmost, hsteps⟩ := (mem_run_rep minLen_cardDigit hallows).1 hc₁
    obtain ⟨c₂, hc₂, hahead⟩ := mem_run_seq.1 hlast
    obtain ⟨c₃, hc₃, hend⟩ := mem_run_seq.1 hahead
    obtain ⟨rfl, hafter⟩ := mem_run_notAhead hc₃
    rw [run] at hend
    obtain rfl := List.mem_singleton.1 hend
    obtain ⟨span, hspan, hrow, hc⟩ := steps_cardDigit.1 ⟨c₁, hsteps, hc₂⟩
    have hmost := hmost 18 rfl
    exact ⟨span, hspan, ⟨⟨head?_reverse_after hbefore, hafter⟩, k + 1, by omega, by omega, hrow⟩, hc⟩
  · intro h
    obtain ⟨span, hrest, ⟨halone, n, hleast, hmost, hrow⟩, hc⟩ := h
    obtain ⟨k, rfl⟩ : ∃ k, n = k + 1 := ⟨n - 1, by omega⟩
    obtain ⟨c₁, hsteps, hdigit⟩ := steps_cardDigit.2 ⟨span, hrest, hrow, hc⟩
    have hbound : Allows (some 18) k := fun j hj => by cases hj; omega
    have hbehind := run_notBehind (p := digitOrDash)
      (c := ⟨pre.reverse, rest, fun _ => none⟩) (head?_reverse_before halone.before)
    refine mem_run_seq.2 ⟨_, by rw [hbehind]; exact List.mem_singleton_self _, ?_⟩
    refine mem_run_seq.2 ⟨c₁, ?_, mem_run_seq.2 ⟨c, hdigit, ?_⟩⟩
    · exact (mem_run_rep minLen_cardDigit hallows).2 ⟨k, by omega, hbound, hsteps⟩
    · refine mem_run_seq.2 ⟨c, ?_, ?_⟩
      · rw [run_notAhead halone.after]
        exact List.mem_singleton_self _
      · rw [run]
        exact List.mem_singleton_self _

/-- A digit of a row with its separator is preferred to the digit alone, which leads nowhere. -/
theorem cardDigit_pairwise (c : Cursor) :
    (run cardDigit c).Pairwise fun a b => a.rest.length ≤ b.rest.length ∧ run cardDigit b = [] := by
  obtain ⟨before, rest, groups⟩ := c
  rw [run_cardDigit]
  match rest with
  | [] => exact List.Pairwise.nil
  | [d] =>
      dsimp only
      split
      · exact List.pairwise_singleton _ _
      · exact List.Pairwise.nil
  | d :: s :: t =>
      dsimp only
      split
      case isFalse => exact List.Pairwise.nil
      case isTrue hd =>
        split
        case isFalse => exact List.pairwise_singleton _ _
        case isTrue hs =>
          refine List.pairwise_cons.2 ⟨fun b hb => ?_, List.pairwise_singleton _ _⟩
          rw [List.mem_singleton.1 hb]
          refine ⟨Nat.le_succ _, ?_⟩
          have hno := isDigit_of_spaceOrDash hs
          rw [run_cardDigit]
          cases t with
          | nil =>
              show (if JsString.isDigit s then _ else _) = _
              rw [hno]
              rfl
          | cons x t =>
              show (if JsString.isDigit s then _ else _) = _
              rw [hno]
              rfl

theorem card_longestFirst (c : Cursor) : LongestFirst (run CARD c) := by
  have hshort : ∀ c, ∀ c' ∈ run cardDigit c, c'.rest.length < c.rest.length := by
    intro c c' hc'
    have := run_minLen cardDigit c c' hc'
    have := minLen_cardDigit
    omega
  -- the last digit and the look-ahead read one character
  have hlast : ∀ c, ∀ c' ∈ run (seq digit (seq (notAhead digitOrDash) eps)) c,
      c'.rest.length + 1 = c.rest.length := by
    intro c c' hc'
    obtain ⟨c₁, hc₁, hahead⟩ := mem_run_seq.1 hc'
    obtain ⟨c₂, hc₂, hend⟩ := mem_run_seq.1 hahead
    obtain ⟨rfl, -⟩ := mem_run_notAhead hc₂
    rw [run] at hend
    obtain rfl := List.mem_singleton.1 hend
    obtain ⟨x, hrest, -, -⟩ := mem_run_char hc₁
    rw [hrest, List.length_cons]
  have hrows : LongestFirst (run (seq (cardDigit.rep 12 (some 18) true)
      (seq digit (seq (notAhead digitOrDash) eps))) c) := by
    rw [run]
    have hrep : LongestFirst (run (cardDigit.rep 12 (some 18) true) c) := by
      rw [run]
      exact iter_longestFirst hshort cardDigit_pairwise _ _ _ c
    refine LongestFirst.flatMap (fun c₁ _ => ?_) (hrep.imp fun {a b} h x hx y hy => ?_)
    · refine List.pairwise_of_forall_mem_list fun x hx y hy => ?_
      have := hlast c₁ x hx
      have := hlast c₁ y hy
      omega
    · have := hlast a x hx
      have := hlast b y hy
      omega
  rw [card_eq]
  rw [run, run]
  cases c.before with
  | nil =>
      dsimp only
      rw [List.flatMap_singleton]
      exact hrows
  | cons x xs =>
      dsimp only
      split
      · exact List.Pairwise.nil
      · rw [List.flatMap_singleton]
        exact hrows

theorem exec_card {pre rest : JsString} {c : Cursor} (h : CARD.exec pre.reverse rest = some c) :
    ∃ span, rest = span ++ c.rest ∧ Longest pre span c.rest ∧
      c.before = span.reverse ++ pre.reverse := by
  obtain ⟨span, hrest, hcandidate, hc⟩ := mem_run_card.1 (List.mem_of_mem_head? h)
  refine ⟨span, hrest, ⟨hcandidate, fun span' post' hsplit hcandidate' => ?_⟩, ?_⟩
  · rw [← hrest] at hsplit
    have hmem : (⟨pre.reverse, rest, fun _ => none⟩ : Cursor).advance span'.length ∈
        run CARD ⟨pre.reverse, rest, fun _ => none⟩ := by
      have hpost : ((⟨pre.reverse, rest, fun _ => none⟩ : Cursor).advance span'.length).rest =
          post' := by
        rw [hsplit, advance_append]
      refine mem_run_card.2 ⟨span', ?_, ?_, rfl⟩
      · rw [hpost, hsplit]
      · rw [hpost]
        exact hcandidate'
    have hle := (card_longestFirst _).head_le h hmem
    rw [Cursor.rest_advance] at hle
    have hlength : rest.length = span.length + c.rest.length := by
      rw [← List.length_append, ← hrest]
    have hlength' : rest.length = span'.length + post'.length := by
      rw [← List.length_append, ← hsplit]
    rw [List.length_drop] at hle
    dsimp only at hle
    omega
  · rw [hc]
    unfold Cursor.advance
    dsimp only
    rw [hrest, List.take_left]

theorem exec_card_none {pre rest : JsString} (h : CARD.exec pre.reverse rest = none) {span post : JsString}
    (hsplit : rest = span ++ post) : ¬CardShape pre span post := by
  intro hcandidate
  have hpost : ((⟨pre.reverse, rest, fun _ => none⟩ : Cursor).advance span.length).rest = post := by
    rw [hsplit, advance_append]
  have hmem := mem_run_card.2 ⟨span, by rw [hpost, hsplit], by rw [hpost]; exact hcandidate, rfl⟩
  have hsome := exec_isSome hmem
  rw [h] at hsome
  cases hsome

/-- **The expression for cards** reads the longest row that stands alone. -/
theorem exec_card_iff {pre span post : JsString} :
    Longest pre span post ↔ ∃ c, CARD.exec pre.reverse (span ++ post) = some c ∧ c.rest = post := by
  constructor
  · intro h
    cases hexec : CARD.exec pre.reverse (span ++ post) with
    | none => exact absurd h.toCardShape (exec_card_none hexec rfl)
    | some c =>
        obtain ⟨span', hsplit, hlongest, -⟩ := exec_card hexec
        have hle := h.longest span' c.rest hsplit hlongest.toCardShape
        have hge := hlongest.longest span post hsplit.symm h.toCardShape
        obtain ⟨-, hrest⟩ := List.append_inj hsplit (by omega)
        exact ⟨c, rfl, hrest.symm⟩
  · intro h
    obtain ⟨c, hexec, rfl⟩ := h
    obtain ⟨span', hsplit, hlongest, -⟩ := exec_card hexec
    rw [List.append_cancel_right hsplit]
    exact hlongest

/-! ### Reading from left to right -/

/-- The places a reading comes to: the start, the next place after one where no row starts, and the
end of the longest row. -/
inductive Comes (text : JsString) : JsString → JsString → Prop
  | start : Comes text [] text
  | skip {pre post : JsString} {x : ℕ} (here : Comes text pre (x :: post))
      (none : ∀ span post', x :: post = span ++ post' → ¬CardShape pre span post') :
      Comes text (pre ++ [x]) post
  | row {pre span post : JsString} (here : Comes text pre (span ++ post))
      (longest : Longest pre span post) : Comes text (pre ++ span) post

/-- A row that a reading from left to right comes upon. -/
structure CardRead (text pre span post : JsString) : Prop where
  comes : Comes text pre (span ++ post)
  longest : Longest pre span post

theorem Comes.split {text pre post : JsString} (h : Comes text pre post) : text = pre ++ post := by
  induction h with
  | start => rfl
  | skip _ _ ih => rw [ih, List.append_assoc]; rfl
  | row _ _ ih => rw [ih, List.append_assoc]

theorem Comes.visits {text pre post : JsString} (h : Comes text pre post) :
    Visits CARD text pre.length := by
  induction h with
  | start => exact .start
  | @skip pre post x here hnone ih =>
      have hfails : CARD.exec pre.reverse (x :: post) = none := by
        cases hexec : CARD.exec pre.reverse (x :: post) with
        | none => rfl
        | some c =>
            obtain ⟨span, hsplit, hlongest, -⟩ := exec_card hexec
            exact absurd hlongest.toCardShape (hnone span c.rest hsplit)
      have hnext := ih.skip here.split hfails
      rwa [List.length_append]
  | @row pre span post here hlongest ih =>
      obtain ⟨c, hexec, rfl⟩ := exec_card_iff.1 hlongest
      have hnext := ih.found here.split hexec
      obtain ⟨span', hsplit, -, hbefore⟩ := exec_card hexec
      rw [hbefore, List.append_cancel_right hsplit.symm, ← List.reverse_append,
        List.length_reverse] at hnext
      exact hnext

theorem comes_of_visits {text : JsString} {i : ℕ} (h : Visits CARD text i) :
    ∃ pre post, pre.length = i ∧ Comes text pre post := by
  induction h with
  | start => exact ⟨[], text, rfl, .start⟩
  | @skip pre post x _ hsplit hfails ih =>
      obtain ⟨pre', post', hlength, hcomes⟩ := ih
      obtain ⟨rfl, rfl⟩ := List.append_inj (hcomes.split.symm.trans hsplit) hlength
      refine ⟨pre' ++ [x], post, List.length_append, hcomes.skip fun span post' h => ?_⟩
      exact exec_card_none hfails h
  | @found pre post c _ hsplit hexec ih =>
      obtain ⟨pre', post', hlength, hcomes⟩ := ih
      obtain ⟨rfl, rfl⟩ := List.append_inj (hcomes.split.symm.trans hsplit) hlength
      obtain ⟨span, hrest, hlongest, hbefore⟩ := exec_card hexec
      subst hrest
      refine ⟨pre' ++ span, c.rest, ?_, hcomes.row hlongest⟩
      rw [hbefore, ← List.reverse_append, List.length_reverse]

/-- **What the search for cards reports.** -/
theorem mem_cards {text : JsString} {m : Match} (hm : m ∈ CARD.matchAll text) :
    ∃ pre post, CardRead text pre m.text post ∧ m.index = pre.length := by
  obtain ⟨pre, post, c, hsplit, hvisits, hexec, rfl⟩ :=
    (mem_matchAll (by decide : 0 < CARD.minLen)).1 hm
  obtain ⟨pre', post', hlength, hcomes⟩ := comes_of_visits hvisits
  obtain ⟨rfl, rfl⟩ := List.append_inj (hcomes.split.symm.trans hsplit) hlength
  obtain ⟨span, hrest, hlongest, hbefore⟩ := exec_card hexec
  refine ⟨pre', c.rest, ?_, List.length_reverse⟩
  rw [text_matchOf hrest]
  exact ⟨hrest ▸ hcomes, hlongest⟩

theorem CardRead.found {text pre span post : JsString} (h : CardRead text pre span post) :
    ∃ m ∈ CARD.matchAll text, m.index = pre.length ∧ m.text = span := by
  obtain ⟨c, hexec, rfl⟩ := exec_card_iff.1 h.longest
  refine ⟨matchOf pre.reverse (span ++ c.rest) c, ?_, List.length_reverse, text_matchOf rfl⟩
  exact (mem_matchAll (by decide : 0 < CARD.minLen)).2
    ⟨pre, span ++ c.rest, c, h.comes.split, h.comes.visits, hexec, rfl⟩

end VibeRouter
