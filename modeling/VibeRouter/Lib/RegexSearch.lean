import VibeRouter.Lib.RegexRuns

/-! # Global searches

What a global search reports: every match is one of the expression at its place in the text
(`found_of_mem_matchAll`), no match reaches into the next one (`matchAll_pairwise`), and an
expression that matches at a place is found there, unless an earlier match reaches beyond the
place (`matchAll_covers`).  `minLen` is a lower bound of the length of a match. -/

namespace Regex

/-! ### What is found -/

/-- A match is one of the expression at its place in the text. -/
def Found (r : Regex) (text : JsString) (m : Match) : Prop :=
  ∃ pre c, text = pre ++ m.text ++ c.rest ∧ m.index = pre.length ∧ m.groups = c.groups ∧
    r.exec pre.reverse (m.text ++ c.rest) = some c

/-- The match that a search reports for a cursor. -/
def matchOf (before rest : JsString) (c : Cursor) : Match :=
  ⟨before.length, rest.take (rest.length - c.rest.length), c.groups⟩

theorem text_matchOf {before rest matched : JsString} {c : Cursor} (h : rest = matched ++ c.rest) :
    (matchOf before rest c).text = matched := by
  have hlength : rest.length - c.rest.length = matched.length := by
    rw [h, List.length_append]
    omega
  unfold matchOf
  rw [hlength, h, List.take_left]

theorem found_matchOf {r : Regex} {before rest : JsString} {c : Cursor}
    (h : r.exec before rest = some c) : Found r (before.reverse ++ rest) (matchOf before rest c) := by
  obtain ⟨matched, hrest, -⟩ := exec_moves h
  have htext := @text_matchOf before _ _ _ hrest
  refine ⟨before.reverse, c, ?_, (List.length_reverse).symm, rfl, ?_⟩
  · rw [htext, List.append_assoc, ← hrest]
  · rw [htext, ← hrest, List.reverse_reverse, h]

theorem stop_matchOf {r : Regex} {before rest : JsString} {c : Cursor}
    (h : r.exec before rest = some c) : (matchOf before rest c).stop = c.before.length := by
  obtain ⟨matched, hrest, hbefore⟩ := exec_moves h
  show (matchOf before rest c).index + (matchOf before rest c).text.length = _
  rw [text_matchOf hrest, hbefore, List.length_append, List.length_reverse, Nat.add_comm]
  rfl

/-- A search goes on after a match, one character further if the match is empty. -/
theorem matchFrom_succ (r : Regex) (fuel : ℕ) (before rest : JsString) :
    matchFrom r (fuel + 1) before rest = match r.exec before rest with
      | some c =>
          if c.rest.length < rest.length then matchOf before rest c :: matchFrom r fuel c.before c.rest
          else match rest with
            | [] => [matchOf before rest c]
            | x :: xs => matchOf before rest c :: matchFrom r fuel (x :: before) xs
      | none => match rest with
        | [] => []
        | x :: xs => matchFrom r fuel (x :: before) xs := by
  cases rest with
  | nil => rw [matchFrom]; rfl
  | cons x xs => rw [matchFrom]; rfl

/-- The text around a place one character further. -/
theorem text_cons (before xs : JsString) (x : ℕ) :
    (x :: before).reverse ++ xs = before.reverse ++ x :: xs := by
  rw [List.reverse_cons, List.append_assoc]
  rfl

/-- The text around the end of a match. -/
theorem text_exec {r : Regex} {before rest : JsString} {c : Cursor}
    (h : r.exec before rest = some c) : c.before.reverse ++ c.rest = before.reverse ++ rest := by
  obtain ⟨matched, hrest, hbefore⟩ := exec_moves h
  rw [hbefore, List.reverse_append, List.reverse_reverse, List.append_assoc, ← hrest]

theorem mem_matchFrom {r : Regex} {fuel : ℕ} {before rest : JsString} {m : Match}
    (h : m ∈ matchFrom r fuel before rest) :
    Found r (before.reverse ++ rest) m ∧ before.length ≤ m.index := by
  induction fuel generalizing before rest with
  | zero => cases h
  | succ fuel ih =>
      have hnext : ∀ x xs, m ∈ matchFrom r fuel (x :: before) xs →
          Found r (before.reverse ++ x :: xs) m ∧ before.length ≤ m.index := by
        intro x xs hm
        obtain ⟨hfound, hle⟩ := ih hm
        rw [text_cons] at hfound
        rw [List.length_cons] at hle
        exact ⟨hfound, by omega⟩
      rw [matchFrom_succ] at h
      cases hexec : r.exec before rest with
      | none =>
          rw [hexec] at h
          cases rest with
          | nil => cases h
          | cons x xs => exact hnext x xs h
      | some c =>
          rw [hexec] at h
          have hself : Found r (before.reverse ++ rest) (matchOf before rest c) ∧
              before.length ≤ (matchOf before rest c).index := ⟨found_matchOf hexec, Nat.le_refl _⟩
          dsimp only at h
          split at h
          · rcases List.mem_cons.1 h with rfl | h
            · exact hself
            · obtain ⟨hfound, hle⟩ := ih h
              rw [text_exec hexec] at hfound
              obtain ⟨matched, -, hbefore⟩ := exec_moves hexec
              have hlength := congrArg List.length hbefore
              rw [List.length_append] at hlength
              have hself := hself.2
              exact ⟨hfound, by omega⟩
          · cases rest with
            | nil =>
                obtain rfl := List.mem_singleton.1 h
                exact hself
            | cons x xs =>
                rcases List.mem_cons.1 h with rfl | h
                · exact hself
                · exact hnext x xs h

theorem found_of_mem_matchAll {r : Regex} {text : JsString} {m : Match} (h : m ∈ r.matchAll text) :
    Found r text m := (mem_matchFrom h).1

/-- What is found lies in the text. -/
theorem Found.stop_le {r : Regex} {text : JsString} {m : Match} (h : Found r text m) :
    m.stop ≤ text.length := by
  obtain ⟨pre, c, htext, hindex, -, -⟩ := h
  unfold Match.stop
  rw [htext, hindex, List.length_append, List.length_append]
  omega

/-- A search goes from left to right, and no match reaches into the next. -/
theorem matchFrom_pairwise (r : Regex) (fuel : ℕ) (before rest : JsString) :
    (matchFrom r fuel before rest).Pairwise fun m m' => m.stop ≤ m'.index := by
  induction fuel generalizing before rest with
  | zero => exact List.Pairwise.nil
  | succ fuel ih =>
      rw [matchFrom_succ]
      cases hexec : r.exec before rest with
      | none =>
          cases rest with
          | nil => exact List.Pairwise.nil
          | cons x xs => exact ih (x :: before) xs
      | some c =>
          have hstop := stop_matchOf hexec
          dsimp only
          split
          · refine List.pairwise_cons.2 ⟨fun m' hm' => ?_, ih c.before c.rest⟩
            rw [hstop]
            exact (mem_matchFrom hm').2
          · cases rest with
            | nil => exact List.pairwise_singleton _ _
            | cons x xs =>
                refine List.pairwise_cons.2 ⟨fun m' hm' => ?_, ih (x :: before) xs⟩
                obtain ⟨matched, hrest, hbefore⟩ := exec_moves hexec
                have hshort := congrArg List.length hrest
                have hlength := congrArg List.length hbefore
                have hle := (mem_matchFrom hm').2
                rw [List.length_append] at hshort hlength
                rw [List.length_reverse] at hlength
                rw [List.length_cons] at hle
                rw [hstop]
                omega

theorem matchAll_pairwise (r : Regex) (text : JsString) :
    (r.matchAll text).Pairwise fun m m' => m.stop ≤ m'.index :=
  matchFrom_pairwise r (text.length + 1) [] text

/-! ### What is not missed -/

/-- A place where the expression matches is the start of a reported match, or an earlier one reaches
beyond it. -/
theorem matchFrom_covers {r : Regex} {fuel : ℕ} {before rest pre post : JsString} {c : Cursor}
    (hfuel : rest.length < fuel) (hrest : rest = pre ++ post)
    (hexec : r.exec (pre.reverse ++ before) post = some c) :
    ∃ m ∈ matchFrom r fuel before rest, m = matchOf (pre.reverse ++ before) post c ∨
      (m.index < before.length + pre.length ∧ before.length + pre.length < m.stop) := by
  induction fuel generalizing before rest pre with
  | zero => omega
  | succ fuel ih =>
      have hnext : ∀ x xs, rest = x :: xs → pre ≠ [] →
          ∃ m ∈ matchFrom r fuel (x :: before) xs, m = matchOf (pre.reverse ++ before) post c ∨
            (m.index < before.length + pre.length ∧ before.length + pre.length < m.stop) := by
        intro x xs hx hpre
        obtain ⟨y, pre', rfl⟩ := List.exists_cons_of_ne_nil hpre
        rw [hx] at hrest hfuel
        obtain ⟨rfl, hxs⟩ := List.cons.inj hrest
        rw [List.length_cons] at hfuel
        have hplace : (x :: pre').reverse ++ before = pre'.reverse ++ x :: before := by simp
        rw [hplace] at hexec ⊢
        obtain ⟨m, hm, hcase⟩ := ih (by omega) hxs hexec
        refine ⟨m, hm, hcase.imp_right fun h => ?_⟩
        rw [List.length_cons] at h ⊢
        omega
      rw [matchFrom_succ]
      cases hfirst : r.exec before rest with
      | none =>
          cases hpre : pre with
          | nil =>
              rw [hpre] at hexec hrest
              replace hexec : r.exec before post = some c := hexec
              replace hrest : rest = post := hrest
              rw [← hrest, hfirst] at hexec
              cases hexec
          | cons y pre' =>
              have hne : pre ≠ [] := by
                rw [hpre]
                exact List.cons_ne_nil y pre'
              obtain ⟨x, xs, hx⟩ : ∃ x xs, rest = x :: xs := ⟨y, pre' ++ post, by rw [hrest, hpre]; rfl⟩
              subst hx
              rw [← hpre]
              exact hnext x xs rfl hne
      | some c₀ =>
          by_cases hpre : pre = []
          · subst hpre
            replace hexec : r.exec before post = some c := hexec
            replace hrest : rest = post := hrest
            obtain rfl := Option.some.inj (hfirst.symm.trans (hrest ▸ hexec))
            subst hrest
            refine ⟨matchOf before rest c₀, ?_, Or.inl rfl⟩
            dsimp only
            split
            · exact List.mem_cons_self
            · cases rest with
              | nil => exact List.mem_cons_self
              | cons x xs => exact List.mem_cons_self
          · obtain ⟨matched, hmatched, hbefore⟩ := exec_moves hfirst
            have hlength := congrArg List.length hbefore
            rw [List.length_append, List.length_reverse] at hlength
            dsimp only
            split
            case isTrue hshort =>
              by_cases hinside : pre.length < matched.length
              · refine ⟨_, List.mem_cons_self, Or.inr ⟨?_, ?_⟩⟩
                · have := List.length_pos_iff.2 hpre
                  show before.length < before.length + pre.length
                  omega
                · rw [stop_matchOf hfirst, hlength]
                  omega
              · have hprefix : matched <+: pre :=
                  List.prefix_of_prefix_length_le ⟨c₀.rest, hmatched.symm⟩ ⟨post, hrest.symm⟩
                    (by omega)
                obtain ⟨pre', rfl⟩ := hprefix
                rw [hrest, List.append_assoc] at hmatched
                have hrest' : c₀.rest = pre' ++ post := (List.append_cancel_left hmatched).symm
                have hplace : (matched ++ pre').reverse ++ before = pre'.reverse ++ c₀.before := by
                  rw [hbefore, List.reverse_append, List.append_assoc]
                rw [hplace] at hexec ⊢
                obtain ⟨m, hm, hcase⟩ := ih (by omega) hrest' hexec
                refine ⟨m, List.mem_cons_of_mem _ hm, hcase.imp_right fun h => ?_⟩
                rw [List.length_append]
                omega
            case isFalse hshort =>
              cases hx : rest with
              | nil =>
                  rw [hx] at hrest
                  exact absurd (List.append_eq_nil_iff.1 hrest.symm).1 hpre
              | cons x xs =>
                  obtain ⟨m, hm, hcase⟩ := hnext x xs hx hpre
                  exact ⟨m, List.mem_cons_of_mem _ hm, hcase⟩

theorem matchAll_covers {r : Regex} {text pre post : JsString} {c : Cursor}
    (htext : text = pre ++ post) (hexec : r.exec pre.reverse post = some c) :
    ∃ m ∈ r.matchAll text, m = matchOf pre.reverse post c ∨
      (m.index < pre.length ∧ pre.length < m.stop) := by
  have hplace : pre.reverse = pre.reverse ++ [] := (List.append_nil _).symm
  rw [hplace] at hexec
  obtain ⟨m, hm, hcase⟩ := matchFrom_covers (Nat.lt_succ_self _) htext hexec
  rw [← hplace] at hcase
  rw [List.length_nil, Nat.zero_add] at hcase
  exact ⟨m, hm, hcase⟩

/-! ### The length of a match -/

/-- A match has at least this many characters. -/
def minLen : Regex → ℕ
  | char _ => 1
  | seq r s => minLen r + minLen s
  | alt r s => min (minLen r) (minLen s)
  | rep r min _ _ => min * minLen r
  | group _ r => minLen r
  | _ => 0

theorem iter_minLen {m : Cursor → List Cursor} {n : ℕ}
    (hm : ∀ c, ∀ c' ∈ m c, c'.rest.length + n ≤ c.rest.length) (greedy : Bool)
    (fuel min : ℕ) (max : Option ℕ) (c c' : Cursor) (h : c' ∈ iter m greedy fuel min max c) :
    c'.rest.length + min * n ≤ c.rest.length := by
  induction fuel generalizing min max c with
  | zero => cases h
  | succ fuel ih =>
      cases min with
      | succ min =>
          rw [iter] at h
          obtain ⟨c₁, hc₁, hc'⟩ := List.mem_flatMap.1 h
          have hfirst := hm c c₁ hc₁
          have hmore := ih _ _ _ hc'
          rw [Nat.add_mul, Nat.one_mul]
          omega
      | zero =>
          rw [Nat.zero_mul]
          have hmoves : ∀ c, ∀ c' ∈ m c, c'.rest.length ≤ c.rest.length := by
            intro c c' hc'
            have := hm c c' hc'
            omega
          rw [iter] at h
          have hmore : c' ∈ ((m c).filter fun c' => c'.rest.length < c.rest.length).flatMap
              (iter m greedy fuel 0 (less max)) → c'.rest.length ≤ c.rest.length := by
            intro hc'
            obtain ⟨c₁, hc₁, hc'⟩ := List.mem_flatMap.1 hc'
            have hfirst := hmoves c c₁ (List.mem_filter.1 hc₁).1
            have hrest := ih _ _ _ hc'
            omega
          split at h
          · rw [List.mem_singleton.1 h]
            exact Nat.le_refl _
          · dsimp only at h
            split at h
            · rcases List.mem_append.1 h with h | h
              · exact hmore h
              · rw [List.mem_singleton.1 h]
                exact Nat.le_refl _
            · rcases List.mem_cons.1 h with rfl | h
              · exact Nat.le_refl _
              · exact hmore h

theorem run_minLen (r : Regex) (c c' : Cursor) (h : c' ∈ run r c) :
    c'.rest.length + r.minLen ≤ c.rest.length := by
  have hle := fun r c c' h => (run_suffix r c c' h).length_le
  induction r generalizing c c' with
  | char p =>
      rw [run_char] at h
      split at h
      case h_1 x xs hrest =>
        split at h
        · rw [List.mem_singleton.1 h, Cursor.rest_advance, hrest]
          exact Nat.le_refl _
        · cases h
      case h_2 => cases h
  | seq r s ihr ihs =>
      rw [run] at h
      obtain ⟨c₁, hc₁, hc'⟩ := List.mem_flatMap.1 h
      have hfirst := ihr c c₁ hc₁
      have hsecond := ihs c₁ c' hc'
      rw [minLen]
      omega
  | alt r s ihr ihs =>
      rw [run] at h
      rw [minLen]
      rcases List.mem_append.1 h with h | h
      · have := ihr c c' h
        have := Nat.min_le_left r.minLen s.minLen
        omega
      · have := ihs c c' h
        have := Nat.min_le_right r.minLen s.minLen
        omega
  | rep r min max greedy ih =>
      rw [run] at h
      exact iter_minLen ih greedy _ _ _ c c' h
  | group n r ih =>
      rw [run] at h
      obtain ⟨c₁, hc₁, rfl⟩ := List.mem_map.1 h
      exact ih c c₁ hc₁
  | eps | backref n | bol | eol | notBehind p | notAhead p => exact hle _ c c' h

/-- What is found is at least as long as a match has to be. -/
theorem Found.minLen_le {r : Regex} {text : JsString} {m : Match} (h : Found r text m) :
    r.minLen ≤ m.text.length := by
  obtain ⟨pre, c, -, -, -, hexec⟩ := h
  have hlength := run_minLen r _ c (List.mem_of_mem_head? hexec)
  rw [List.length_append] at hlength
  omega

/-! ### The places a search comes to -/

/-- The places where a search tries to match: the start, the next place after one where the
expression does not match, and the end of a match. -/
inductive Visits (r : Regex) (text : JsString) : ℕ → Prop
  | start : Visits r text 0
  | skip {pre post : JsString} {x : ℕ} (here : Visits r text pre.length)
      (split : text = pre ++ x :: post) (fails : r.exec pre.reverse (x :: post) = none) :
      Visits r text (pre.length + 1)
  | found {pre post : JsString} {c : Cursor} (here : Visits r text pre.length)
      (split : text = pre ++ post) (reads : r.exec pre.reverse post = some c) :
      Visits r text c.before.length

variable {r : Regex} {text : JsString}

theorem shorter_of_exec (hr : 0 < r.minLen) {before rest : JsString} {c : Cursor}
    (h : r.exec before rest = some c) : c.rest.length < rest.length := by
  have := run_minLen r ⟨before, rest, fun _ => none⟩ c (List.mem_of_mem_head? h)
  dsimp only at this
  omega

theorem visits_of_mem (hr : 0 < r.minLen) {fuel : ℕ} {before rest : JsString} {m : Match}
    (htext : text = before.reverse ++ rest) (hvisits : Visits r text before.length)
    (h : m ∈ matchFrom r fuel before rest) :
    ∃ pre post c, text = pre ++ post ∧ Visits r text pre.length ∧
      r.exec pre.reverse post = some c ∧ m = matchOf pre.reverse post c := by
  induction fuel generalizing before rest with
  | zero => cases h
  | succ fuel ih =>
      have hback : before.reverse.reverse = before := List.reverse_reverse before
      rw [matchFrom_succ] at h
      cases hexec : r.exec before rest with
      | none =>
          rw [hexec] at h
          cases rest with
          | nil => cases h
          | cons x xs =>
              rw [← List.length_reverse] at hvisits
              have hnext := hvisits.skip htext (by rw [hback]; exact hexec)
              rw [List.length_reverse, ← List.length_cons (a := x)] at hnext
              exact ih (by rw [text_cons]; exact htext) hnext h
      | some c =>
          rw [hexec] at h
          dsimp only at h
          rw [if_pos (shorter_of_exec hr hexec)] at h
          rw [← List.length_reverse] at hvisits
          have hexec' : r.exec before.reverse.reverse rest = some c := by rw [hback]; exact hexec
          rcases List.mem_cons.1 h with rfl | h
          · exact ⟨before.reverse, rest, c, htext, hvisits, hexec', by rw [hback]⟩
          · refine ih ?_ (hvisits.found htext hexec') h
            rw [text_exec hexec]
            exact htext

/-- A search goes on from every place it comes to. -/
theorem Visits.suffix (hr : 0 < r.minLen) {i : ℕ} (h : Visits r text i) :
    ∃ fuel pre post, text = pre ++ post ∧ pre.length = i ∧ post.length < fuel ∧
      matchFrom r fuel pre.reverse post <:+ r.matchAll text := by
  induction h with
  | start => exact ⟨text.length + 1, [], text, rfl, rfl, Nat.lt_succ_self _, List.suffix_rfl⟩
  | @skip pre post x _ hsplit hfails ih =>
      obtain ⟨fuel, pre', post', hsplit', hlength, hfuel, hsuffix⟩ := ih
      obtain ⟨rfl, rfl⟩ := List.append_inj (hsplit'.symm.trans hsplit) hlength
      cases fuel with
      | zero => omega
      | succ fuel =>
          rw [matchFrom_succ, hfails] at hsuffix
          rw [List.length_cons] at hfuel
          refine ⟨fuel, pre' ++ [x], post, by rw [hsplit]; simp, by simp, by omega, ?_⟩
          rw [List.reverse_append]
          exact hsuffix
  | @found pre post c _ hsplit hexec ih =>
      obtain ⟨fuel, pre', post', hsplit', hlength, hfuel, hsuffix⟩ := ih
      obtain ⟨rfl, rfl⟩ := List.append_inj (hsplit'.symm.trans hsplit) hlength
      have hshort := shorter_of_exec hr hexec
      cases fuel with
      | zero => omega
      | succ fuel =>
          rw [matchFrom_succ, hexec] at hsuffix
          dsimp only at hsuffix
          rw [if_pos hshort] at hsuffix
          have htext := text_exec hexec
          rw [List.reverse_reverse] at htext
          refine ⟨fuel, c.before.reverse, c.rest, by rw [hsplit, htext], List.length_reverse,
            by omega, ?_⟩
          rw [List.reverse_reverse]
          exact (List.suffix_cons _ _).trans hsuffix

/-- **What a search reports**: the matches at the places it comes to. -/
theorem mem_matchAll (hr : 0 < r.minLen) {m : Match} :
    m ∈ r.matchAll text ↔ ∃ pre post c, text = pre ++ post ∧ Visits r text pre.length ∧
      r.exec pre.reverse post = some c ∧ m = matchOf pre.reverse post c := by
  constructor
  · exact visits_of_mem hr rfl .start
  · intro h
    obtain ⟨pre, post, c, hsplit, hvisits, hexec, rfl⟩ := h
    obtain ⟨fuel, pre', post', hsplit', hlength, hfuel, hsuffix⟩ := hvisits.suffix hr
    obtain ⟨rfl, rfl⟩ := List.append_inj (hsplit'.symm.trans hsplit) hlength
    refine hsuffix.subset ?_
    cases fuel with
    | zero => omega
    | succ fuel =>
        rw [matchFrom_succ, hexec]
        dsimp only
        rw [if_pos (shorter_of_exec hr hexec)]
        exact List.mem_cons_self

/-! ### Tests -/

theorem exec_isSome {before rest : JsString} {c : Cursor}
    (h : c ∈ run r ⟨before, rest, fun _ => none⟩) : (r.exec before rest).isSome = true := by
  unfold exec
  cases hrun : run r ⟨before, rest, fun _ => none⟩ with
  | nil =>
      rw [hrun] at h
      cases h
  | cons c' cs => rfl

/-- An expression that matches at a place of a text passes its test. -/
theorem test_of_run {pre post : JsString} {c : Cursor}
    (h : c ∈ run r ⟨pre.reverse, post, fun _ => none⟩) : r.test (pre ++ post) = true := by
  have hfrom : ∀ (pre before : JsString), c ∈ run r ⟨pre.reverse ++ before, post, fun _ => none⟩ →
      r.testFrom before (pre ++ post) = true := by
    intro pre
    induction pre with
    | nil =>
        intro before h
        have hexec := exec_isSome h
        show r.testFrom before post = true
        cases post with
        | nil => exact hexec
        | cons x xs =>
            rw [testFrom, Bool.or_eq_true]
            exact Or.inl hexec
    | cons x pre ih =>
        intro before h
        have hplace : (x :: pre).reverse ++ before = pre.reverse ++ x :: before := by simp
        rw [hplace] at h
        show r.testFrom before (x :: (pre ++ post)) = true
        rw [testFrom, ih (x :: before) h, Bool.or_true]
  refine hfrom pre [] ?_
  rwa [List.append_nil]

/-- Past the beginning of the text, an anchored expression matches nowhere. -/
theorem testFrom_bol (r : Regex) (s : JsString) {before : JsString} (h : before ≠ []) :
    (seq bol r).testFrom before s = false := by
  have hnone : ∀ {before : JsString} (s : JsString), before ≠ [] →
      ((seq bol r).exec before s).isSome = false := by
    intro before s h
    unfold exec
    rw [run, run, if_neg h]
    rfl
  induction s generalizing before with
  | nil => exact hnone [] h
  | cons x s ih =>
      rw [testFrom, hnone _ h, ih (List.cons_ne_nil x before)]
      rfl

/-- An anchored expression matches at the beginning of the text. -/
theorem test_bol_iff (r : Regex) (s : JsString) :
    (seq bol r).test s = true ↔ ∃ c, c ∈ run r ⟨[], s, fun _ => none⟩ := by
  have hstart : ((seq bol r).exec [] s).isSome = true ↔ ∃ c, c ∈ run r ⟨[], s, fun _ => none⟩ := by
    unfold exec
    rw [run, run, if_pos rfl, List.flatMap_singleton]
    cases run r ⟨[], s, fun _ => none⟩ with
    | nil => simp
    | cons c cs => exact ⟨fun _ => ⟨c, List.mem_cons_self⟩, fun _ => rfl⟩
  rw [← hstart]
  unfold test
  cases s with
  | nil => rfl
  | cons x s => rw [testFrom, testFrom_bol r s (List.cons_ne_nil x []), Bool.or_false]

end Regex
