import VibeRouter.Lib.Regex
import Mathlib.Data.List.Basic

/-! # How regular expressions match

`run_star_char` and `run_literal` say how the two simplest expressions match; `run_suffix` says
that a match leaves a suffix of what it started on; and `removeFirst_cases` says what is left when
the first match of an expression is removed from a text: the expression matches there, and at no
place before it. -/

namespace Regex

/-! ### Places -/

namespace Cursor

theorem advance_zero (c : Cursor) : c.advance 0 = c := by
  unfold advance
  simp

theorem advance_advance (c : Cursor) (m n : ℕ) : (c.advance m).advance n = c.advance (m + n) := by
  unfold advance
  have htake : ((c.rest.drop m).take n).reverse ++ ((c.rest.take m).reverse ++ c.before) =
      (c.rest.take (m + n)).reverse ++ c.before := by
    rw [← List.append_assoc, ← List.reverse_append, List.take_add]
  simp only [List.drop_drop, htake]

@[simp] theorem rest_advance (c : Cursor) (n : ℕ) : (c.advance n).rest = c.rest.drop n := rfl

end Cursor

/-! ### Repeating a character -/

theorem run_char (p : ℕ → Bool) (c : Cursor) :
    run (char p) c = match c.rest with
      | x :: _ => if p x then [c.advance 1] else []
      | [] => [] := by
  obtain ⟨before, rest, groups⟩ := c
  cases rest with
  | nil => simp only [run]
  | cons x xs => simp only [run]

/-- `p*` takes one more character and goes on, or stops. -/
theorem run_star_char (p : ℕ → Bool) (c : Cursor) :
    run (star (char p)) c = match c.rest with
      | x :: _ => if p x then run (star (char p)) (c.advance 1) ++ [c] else [c]
      | [] => [c] := by
  have hstar : ∀ c : Cursor, run (star (char p)) c =
      iter (run (char p)) true (c.rest.length + 1) 0 none c := by
    intro c
    rw [star, run, Nat.zero_add]
  rw [hstar, iter]
  simp only [reduceCtorEq, if_false, if_true, less]
  rw [run_char]
  cases hrest : c.rest with
  | nil => simp
  | cons x xs =>
      dsimp only
      by_cases hp : p x = true
      · have hshort : (c.advance 1).rest.length < (x :: xs).length := by
          rw [Cursor.rest_advance, hrest]
          simp
        rw [if_pos hp, if_pos hp, hstar, List.filter_cons_of_pos (by simpa using hshort)]
        simp [hrest]
      · rw [if_neg hp, if_neg hp]
        simp

/-- What `p*` prefers is the longest run. -/
theorem head_run_star_char (p : ℕ → Bool) (c : Cursor) :
    (run (star (char p)) c).head? = some (c.advance (c.rest.takeWhile p).length) := by
  generalize hn : c.rest.length = n
  induction n generalizing c with
  | zero =>
      have hrest := List.eq_nil_of_length_eq_zero hn
      rw [run_star_char, hrest]
      simp [Cursor.advance_zero]
  | succ n ih =>
      rw [run_star_char]
      cases hrest : c.rest with
      | nil =>
          rw [hrest] at hn
          cases hn
      | cons x xs =>
          dsimp only
          by_cases hp : p x = true
          · have hlength : (c.advance 1).rest.length = n := by
              rw [Cursor.rest_advance, hrest]
              rw [hrest] at hn
              simpa using hn
            rw [if_pos hp, List.head?_append, ih _ hlength, List.takeWhile_cons_of_pos hp]
            simp only [Cursor.rest_advance, hrest, Cursor.advance_advance]
            simp [Nat.add_comm]
          · rw [if_neg hp, List.takeWhile_cons_of_neg hp]
            simp [Cursor.advance_zero]

/-- `p*` matches any run of characters in `p`. -/
theorem mem_run_star_char {p : ℕ → Bool} {c c' : Cursor} :
    c' ∈ run (star (char p)) c ↔
      ∃ ws rest, c.rest = ws ++ rest ∧ (∀ x ∈ ws, p x = true) ∧ c' = c.advance ws.length := by
  generalize hn : c.rest.length = n
  induction n generalizing c with
  | zero =>
      have hrest := List.eq_nil_of_length_eq_zero hn
      rw [run_star_char, hrest]
      constructor
      · intro hmem
        refine ⟨[], [], rfl, by simp, ?_⟩
        rw [List.mem_singleton.1 hmem]
        exact (Cursor.advance_zero c).symm
      · intro hmem
        obtain ⟨ws, rest, hsplit, -, rfl⟩ := hmem
        have hws : ws = [] := (List.append_eq_nil_iff.1 hsplit.symm).1
        rw [hws]
        exact List.mem_singleton.2 (Cursor.advance_zero c)
  | succ n ih =>
      rw [run_star_char]
      cases hrest : c.rest with
      | nil =>
          rw [hrest] at hn
          cases hn
      | cons x xs =>
          have hlength : (c.advance 1).rest.length = n := by
            rw [Cursor.rest_advance, hrest]
            rw [hrest] at hn
            simpa using hn
          dsimp only
          constructor
          · intro hmem
            have hstop : c' = c → ∃ ws rest, x :: xs = ws ++ rest ∧ (∀ x ∈ ws, p x = true) ∧
                c' = c.advance ws.length := by
              intro h
              exact ⟨[], x :: xs, rfl, by simp, h.trans (Cursor.advance_zero c).symm⟩
            by_cases hp : p x = true
            · rw [if_pos hp] at hmem
              rcases List.mem_append.1 hmem with hmem | hmem
              · obtain ⟨ws, rest, hsplit, hws, rfl⟩ := (ih hlength).1 hmem
                rw [Cursor.rest_advance, hrest] at hsplit
                replace hsplit : xs = ws ++ rest := hsplit
                refine ⟨x :: ws, rest, by rw [hsplit]; rfl, ?_, ?_⟩
                · intro y hy
                  rcases List.mem_cons.1 hy with rfl | hy
                  · exact hp
                  · exact hws y hy
                · rw [Cursor.advance_advance, List.length_cons, Nat.add_comm]
              · exact hstop (List.mem_singleton.1 hmem)
            · rw [if_neg hp] at hmem
              exact hstop (List.mem_singleton.1 hmem)
          · intro hmem
            obtain ⟨ws, rest, hsplit, hws, rfl⟩ := hmem
            cases ws with
            | nil =>
                have hself : c.advance ([] : JsString).length = c := Cursor.advance_zero c
                rw [hself]
                split
                · exact List.mem_append_right _ (List.mem_singleton_self c)
                · exact List.mem_singleton_self c
            | cons w ws =>
                obtain ⟨rfl, rfl⟩ := List.cons.inj hsplit
                have hp := hws x (List.mem_cons_self ..)
                rw [if_pos hp]
                refine List.mem_append_left _ ((ih hlength).2 ⟨ws, rest, ?_, ?_, ?_⟩)
                · rw [Cursor.rest_advance, hrest]
                  rfl
                · exact fun y hy => hws y (List.mem_cons_of_mem _ hy)
                · rw [Cursor.advance_advance, List.length_cons, Nat.add_comm]

/-! ### Literal texts -/

/-- A text matches where it stands. -/
theorem run_literal (s : JsString) (c : Cursor) :
    run (literal s) c = if s <+: c.rest then [c.advance s.length] else [] := by
  induction s generalizing c with
  | nil =>
      show run eps c = _
      rw [run, if_pos (List.nil_prefix)]
      exact congrArg (fun c => [c]) (Cursor.advance_zero c).symm
  | cons x s ih =>
      show run (seq (char fun y => y == x) (literal s)) c = _
      rw [run, run_char]
      cases hrest : c.rest with
      | nil => simp
      | cons y ys =>
          dsimp only
          by_cases hxy : y = x
          · subst hxy
            rw [if_pos (by simp), List.flatMap_singleton, ih, Cursor.rest_advance, hrest]
            have hprefix : y :: s <+: y :: ys ↔ s <+: ys := by
              rw [List.cons_prefix_cons]
              exact ⟨fun h => h.2, fun h => ⟨rfl, h⟩⟩
            simp only [List.drop_succ_cons, List.drop_zero, hprefix, Cursor.advance_advance,
              List.length_cons, Nat.add_comm]
          · have hne : (y == x) = false := by simpa using hxy
            have hprefix : ¬x :: s <+: y :: ys := by
              rw [List.cons_prefix_cons]
              exact fun h => hxy h.1.symm
            rw [hne, if_neg Bool.false_ne_true, if_neg hprefix]
            rfl

/-! ### Where a match moves -/

namespace Cursor

/-- A place reached by reading some of the text. -/
def Moves (c c' : Cursor) : Prop :=
  ∃ matched, c.rest = matched ++ c'.rest ∧ c'.before = matched.reverse ++ c.before

theorem Moves.refl (c : Cursor) : c.Moves c := ⟨[], rfl, rfl⟩

theorem Moves.trans {c₁ c₂ c₃ : Cursor} (h : c₁.Moves c₂) (h' : c₂.Moves c₃) : c₁.Moves c₃ := by
  obtain ⟨first, hfirst, hbefore⟩ := h
  obtain ⟨second, hsecond, hbefore'⟩ := h'
  refine ⟨first ++ second, ?_, ?_⟩
  · rw [hfirst, hsecond, List.append_assoc]
  · rw [hbefore', hbefore, List.reverse_append, List.append_assoc]

theorem moves_advance (c : Cursor) (n : ℕ) : c.Moves (c.advance n) :=
  ⟨c.rest.take n, (List.take_append_drop n c.rest).symm, rfl⟩

theorem moves_of_mem_singleton {c c' : Cursor} (h : c' ∈ [c]) : c.Moves c' := by
  rw [List.mem_singleton.1 h]
  exact Moves.refl c

theorem moves_of_mem_advance {c c' : Cursor} {n : ℕ} (h : c' ∈ [c.advance n]) : c.Moves c' := by
  rw [List.mem_singleton.1 h]
  exact moves_advance c n

end Cursor

theorem iter_moves {m : Cursor → List Cursor} (hm : ∀ c, ∀ c' ∈ m c, c.Moves c') (greedy : Bool)
    (fuel min : ℕ) (max : Option ℕ) (c c' : Cursor) (h : c' ∈ iter m greedy fuel min max c) :
    c.Moves c' := by
  induction fuel generalizing min max c c' with
  | zero => cases h
  | succ fuel ih =>
      cases min with
      | succ min =>
          rw [iter] at h
          obtain ⟨c₁, hc₁, hc'⟩ := List.mem_flatMap.1 h
          exact (hm c c₁ hc₁).trans (ih _ _ _ _ hc')
      | zero =>
          rw [iter] at h
          have hmore : ∀ c'' ∈ ((m c).filter fun c' => c'.rest.length < c.rest.length).flatMap
              (iter m greedy fuel 0 (less max)), c.Moves c'' := by
            intro c'' hc''
            obtain ⟨c₁, hc₁, hc''⟩ := List.mem_flatMap.1 hc''
            exact (hm c c₁ (List.mem_filter.1 hc₁).1).trans (ih _ _ _ _ hc'')
          split at h
          · exact Cursor.moves_of_mem_singleton h
          · dsimp only at h
            split at h
            · rcases List.mem_append.1 h with h | h
              · exact hmore c' h
              · exact Cursor.moves_of_mem_singleton h
            · rcases List.mem_cons.1 h with rfl | h
              · exact Cursor.Moves.refl c'
              · exact hmore c' h

/-- A match reads some of the text that is left. -/
theorem run_moves (r : Regex) (c c' : Cursor) (h : c' ∈ run r c) : c.Moves c' := by
  induction r generalizing c c' with
  | eps => exact Cursor.moves_of_mem_singleton (by rwa [run] at h)
  | char p =>
      rw [run_char] at h
      split at h
      · split at h
        · exact Cursor.moves_of_mem_advance h
        · cases h
      · cases h
  | seq r s ihr ihs =>
      rw [run] at h
      obtain ⟨c₁, hc₁, hc'⟩ := List.mem_flatMap.1 h
      exact (ihr c c₁ hc₁).trans (ihs c₁ c' hc')
  | alt r s ihr ihs =>
      rw [run] at h
      rcases List.mem_append.1 h with h | h
      · exact ihr c c' h
      · exact ihs c c' h
  | rep r min max greedy ih =>
      rw [run] at h
      exact iter_moves ih greedy _ _ _ c c' h
  | group n r ih =>
      rw [run] at h
      obtain ⟨c₁, hc₁, rfl⟩ := List.mem_map.1 h
      exact ih c c₁ hc₁
  | backref n =>
      rw [run] at h
      split at h
      · exact Cursor.moves_of_mem_singleton h
      · split at h
        · exact Cursor.moves_of_mem_advance h
        · cases h
  | bol | eol =>
      rw [run] at h
      split at h
      · exact Cursor.moves_of_mem_singleton h
      · cases h
  | notBehind p | notAhead p =>
      rw [run] at h
      split at h
      · split at h
        · cases h
        · exact Cursor.moves_of_mem_singleton h
      · exact Cursor.moves_of_mem_singleton h

/-- A match leaves a suffix of what it started on. -/
theorem run_suffix (r : Regex) (c c' : Cursor) (h : c' ∈ run r c) : c'.rest <:+ c.rest := by
  obtain ⟨matched, hrest, -⟩ := run_moves r c c' h
  exact ⟨matched, hrest.symm⟩

theorem exec_moves {r : Regex} {before rest : JsString} {c : Cursor}
    (h : r.exec before rest = some c) :
    ∃ matched, rest = matched ++ c.rest ∧ c.before = matched.reverse ++ before :=
  run_moves r ⟨before, rest, fun _ => none⟩ c (List.mem_of_mem_head? h)

theorem exec_suffix {r : Regex} {before rest : JsString} {c : Cursor}
    (h : r.exec before rest = some c) : c.rest <:+ rest := by
  have hmem := List.mem_of_mem_head? h
  exact run_suffix r ⟨before, rest, fun _ => none⟩ c hmem

/-! ### Removing the first match -/

/-- The first match of a search: the expression matches there, and at no place before it. -/
theorem head_matchFrom (r : Regex) (fuel : ℕ) (before rest : JsString) (hfuel : rest.length < fuel) :
    ((r.matchFrom fuel before rest).head? = none ∧
      ∀ pre post, rest = pre ++ post → r.exec (pre.reverse ++ before) post = none) ∨
    ∃ pre post c, rest = pre ++ post ∧ r.exec (pre.reverse ++ before) post = some c ∧
      (r.matchFrom fuel before rest).head? =
        some ⟨before.length + pre.length, post.take (post.length - c.rest.length), c.groups⟩ ∧
      ∀ pre' post', rest = pre' ++ post' → pre'.length < pre.length →
        r.exec (pre'.reverse ++ before) post' = none := by
  induction fuel generalizing before rest with
  | zero => omega
  | succ fuel ih =>
      unfold matchFrom
      cases hexec : r.exec before rest with
      | some c =>
          refine Or.inr ⟨[], rest, c, rfl, hexec, ?_, fun pre' post' _ hlt => absurd hlt (by simp)⟩
          dsimp only
          split
          · rfl
          · cases rest <;> rfl
      | none =>
          cases rest with
          | nil =>
              refine Or.inl ⟨rfl, fun pre post hsplit => ?_⟩
              obtain ⟨rfl, rfl⟩ := List.append_eq_nil_iff.1 hsplit.symm
              exact hexec
          | cons x xs =>
              have hlength : xs.length < fuel := by
                simp only [List.length_cons] at hfuel
                omega
              have hshift : ∀ pre post, x :: xs = pre ++ post → pre ≠ [] →
                  ∃ pre', pre = x :: pre' ∧ xs = pre' ++ post ∧
                    pre.reverse ++ before = pre'.reverse ++ x :: before := by
                intro pre post hsplit hne
                cases pre with
                | nil => exact absurd rfl hne
                | cons y pre' =>
                    obtain ⟨rfl, hxs⟩ := List.cons.inj hsplit
                    exact ⟨pre', rfl, hxs, by simp⟩
              rcases ih (x :: before) xs hlength with ⟨hhead, hnone⟩ | ⟨pre, post, c, hsplit, hsome, hhead, hnone⟩
              · refine Or.inl ⟨hhead, fun pre post hsplit => ?_⟩
                by_cases hpre : pre = []
                · subst hpre
                  replace hsplit : x :: xs = post := hsplit
                  rw [← hsplit]
                  exact hexec
                · obtain ⟨pre', rfl, hxs, hbefore⟩ := hshift pre post hsplit hpre
                  rw [hbefore]
                  exact hnone pre' post hxs
              · refine Or.inr ⟨x :: pre, post, c, by rw [hsplit]; rfl, ?_, ?_, ?_⟩
                · simpa using hsome
                · rw [hhead]
                  simp only [List.length_cons]
                  congr 2
                  omega
                · intro pre' post' hsplit' hlt
                  by_cases hpre : pre' = []
                  · subst hpre
                    replace hsplit' : x :: xs = post' := hsplit'
                    rw [← hsplit']
                    exact hexec
                  · obtain ⟨pre'', rfl, hxs, hbefore⟩ := hshift pre' post' hsplit' hpre
                    rw [hbefore]
                    refine hnone pre'' post' hxs ?_
                    simp only [List.length_cons] at hlt
                    omega

/-- **Removing the first match**: the text is left as it is where the expression matches nowhere. -/
theorem removeFirst_cases (r : Regex) (text : JsString) :
    (r.removeFirst text = text ∧ ∀ pre post, text = pre ++ post → r.exec pre.reverse post = none) ∨
    ∃ pre post c, text = pre ++ post ∧ r.exec pre.reverse post = some c ∧
      r.removeFirst text = pre ++ c.rest ∧
      ∀ pre' post', text = pre' ++ post' → pre'.length < pre.length →
        r.exec pre'.reverse post' = none := by
  unfold removeFirst matchAll
  rcases head_matchFrom r (text.length + 1) [] text (by omega) with
    ⟨hhead, hnone⟩ | ⟨pre, post, c, hsplit, hsome, hhead, hnone⟩
  · refine Or.inl ⟨by rw [hhead], fun pre post hsplit => ?_⟩
    simpa using hnone pre post hsplit
  · rw [List.append_nil] at hsome
    refine Or.inr ⟨pre, post, c, hsplit, hsome, ?_, fun pre' post' hsplit' hlt => ?_⟩
    · obtain ⟨matched, hmatched⟩ := exec_suffix hsome
      have hlength : post.length - c.rest.length = matched.length := by
        rw [← hmatched, List.length_append]
        omega
      have hstop : (⟨([] : JsString).length + pre.length, post.take (post.length - c.rest.length),
          c.groups⟩ : Match).stop = (pre ++ matched).length := by
        unfold Match.stop
        rw [hlength, ← hmatched]
        simp
      rw [hhead]
      dsimp only
      rw [hstop, hsplit, ← hmatched, ← List.append_assoc, List.drop_left]
      simp
    · simpa using hnone pre' post' hsplit' hlt

end Regex
