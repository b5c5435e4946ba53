import VibeRouter.Lib.RegexShapes

/-! # Expressions that do not look back

An expression without `^` and without look-behind matches in the same ways whatever stands before it, so
a text that passes its test passes it behind any other text (`test_append_left`). -/

namespace Regex

/-- The expression asks nothing about what stands before it. -/
def forward : Regex → Bool
  | seq r s => forward r && forward s
  | alt r s => forward r && forward s
  | rep r _ _ _ => forward r
  | group _ r => forward r
  | bol => false
  | notBehind _ => false
  | _ => true

/-- The same is left to read, and the groups have captured the same. -/
structure SameAhead (c d : Cursor) : Prop where
  rest : d.rest = c.rest
  groups : d.groups = c.groups

theorem SameAhead.advance {c d : Cursor} (h : SameAhead c d) (n : ℕ) :
    SameAhead (c.advance n) (d.advance n) :=
  ⟨congrArg (List.drop n) h.rest, h.groups⟩

theorem iter_forward {m : Cursor → List Cursor}
    (hm : ∀ c d, SameAhead c d → ∀ c' ∈ m c, ∃ d' ∈ m d, SameAhead c' d') (greedy : Bool)
    (fuel least : ℕ) (max : Option ℕ) {c d c' : Cursor} (hahead : SameAhead c d)
    (h : c' ∈ iter m greedy fuel least max c) :
    ∃ d' ∈ iter m greedy fuel least max d, SameAhead c' d' := by
  induction fuel generalizing least max c d with
  | zero => cases h
  | succ fuel ih =>
      cases least with
      | succ least =>
          rw [iter] at h ⊢
          obtain ⟨c₁, hc₁, hc'⟩ := List.mem_flatMap.1 h
          obtain ⟨d₁, hd₁, hahead₁⟩ := hm c d hahead c₁ hc₁
          obtain ⟨d', hd', hend⟩ := ih _ _ hahead₁ hc'
          exact ⟨d', List.mem_flatMap.2 ⟨d₁, hd₁, hd'⟩, hend⟩
      | zero =>
          have hmore : c' ∈ ((m c).filter fun c' => c'.rest.length < c.rest.length).flatMap
              (iter m greedy fuel 0 (less max)) →
              ∃ d' ∈ ((m d).filter fun d' => d'.rest.length < d.rest.length).flatMap
                (iter m greedy fuel 0 (less max)), SameAhead c' d' := by
            intro hc'
            obtain ⟨c₁, hc₁, hc'⟩ := List.mem_flatMap.1 hc'
            obtain ⟨hmem, hless⟩ := List.mem_filter.1 hc₁
            obtain ⟨d₁, hd₁, hahead₁⟩ := hm c d hahead c₁ hmem
            obtain ⟨d', hd', hend⟩ := ih _ _ hahead₁ hc'
            refine ⟨d', List.mem_flatMap.2 ⟨d₁, List.mem_filter.2 ⟨hd₁, ?_⟩, hd'⟩, hend⟩
            rw [hahead₁.rest, hahead.rest]
            exact hless
          have hself : c' = c → SameAhead c' d := by
            intro heq
            rw [heq]
            exact hahead
          rw [iter] at h ⊢
          split at h
          case isTrue hmax =>
            rw [if_pos hmax]
            exact ⟨d, List.mem_singleton_self d, hself (List.mem_singleton.1 h)⟩
          case isFalse hmax =>
            rw [if_neg hmax]
            dsimp only at h ⊢
            split at h
            case isTrue hgreedy =>
              rw [if_pos hgreedy]
              rcases List.mem_append.1 h with h | h
              · obtain ⟨d', hd', hend⟩ := hmore h
                exact ⟨d', List.mem_append_left _ hd', hend⟩
              · exact ⟨d, List.mem_append_right _ (List.mem_singleton_self d),
                  hself (List.mem_singleton.1 h)⟩
            case isFalse hgreedy =>
              rw [if_neg hgreedy]
              rcases List.mem_cons.1 h with h | h
              · exact ⟨d, List.mem_cons_self, hself h⟩
              · obtain ⟨d', hd', hend⟩ := hmore h
                exact ⟨d', List.mem_cons_of_mem _ hd', hend⟩

/-- **Such an expression matches in the same ways behind any text.** -/
theorem run_forward {r : Regex} (hr : r.forward = true) {c d c' : Cursor} (hahead : SameAhead c d)
    (h : c' ∈ run r c) : ∃ d' ∈ run r d, SameAhead c' d' := by
  induction r generalizing c d c' with
  | eps => exact ⟨d, List.mem_singleton_self d, List.mem_singleton.1 h ▸ hahead⟩
  | char p =>
      rw [run_char] at h ⊢
      rw [hahead.rest]
      cases hrest : c.rest with
      | nil =>
          rw [hrest] at h
          cases h
      | cons x xs =>
          rw [hrest] at h
          dsimp only at h ⊢
          split at h
          case isTrue hx =>
            rw [if_pos hx]
            exact ⟨_, List.mem_singleton_self _, List.mem_singleton.1 h ▸ hahead.advance 1⟩
          case isFalse => cases h
  | seq r s ihr ihs =>
      obtain ⟨hr, hs⟩ := Bool.and_eq_true_iff.1 hr
      rw [run] at h ⊢
      obtain ⟨c₁, hc₁, hc'⟩ := List.mem_flatMap.1 h
      obtain ⟨d₁, hd₁, hahead₁⟩ := ihr hr hahead hc₁
      obtain ⟨d', hd', hend⟩ := ihs hs hahead₁ hc'
      exact ⟨d', List.mem_flatMap.2 ⟨d₁, hd₁, hd'⟩, hend⟩
  | alt r s ihr ihs =>
      obtain ⟨hr, hs⟩ := Bool.and_eq_true_iff.1 hr
      rw [run] at h ⊢
      rcases List.mem_append.1 h with h | h
      · obtain ⟨d', hd', hend⟩ := ihr hr hahead h
        exact ⟨d', List.mem_append_left _ hd', hend⟩
      · obtain ⟨d', hd', hend⟩ := ihs hs hahead h
        exact ⟨d', List.mem_append_right _ hd', hend⟩
  | rep r least max greedy ih =>
      rw [run] at h ⊢
      rw [hahead.rest]
      exact iter_forward (fun c d hcd c' hc' => ih hr hcd hc') greedy _ _ _ hahead h
  | group n r ih =>
      rw [run] at h ⊢
      obtain ⟨c₁, hc₁, rfl⟩ := List.mem_map.1 h
      obtain ⟨d₁, hd₁, hahead₁⟩ := ih hr hahead hc₁
      refine ⟨_, List.mem_map.2 ⟨d₁, hd₁, rfl⟩, hahead₁.rest, ?_⟩
      have hbetween : d.between d₁ = c.between c₁ := by
        unfold Cursor.between
        rw [hahead.rest, hahead₁.rest]
      funext k
      show (if k = n then some (d.between d₁) else d₁.groups k) = _
      rw [hbetween, hahead₁.groups]
  | backref n =>
      rw [run] at h ⊢
      rw [hahead.groups]
      cases hgroup : c.groups n with
      | none =>
          rw [hgroup] at h
          exact ⟨d, List.mem_singleton_self d, List.mem_singleton.1 h ▸ hahead⟩
      | some s =>
          rw [hgroup] at h
          dsimp only at h ⊢
          rw [hahead.rest]
          split at h
          case isTrue hs =>
            rw [if_pos hs]
            exact ⟨_, List.mem_singleton_self _, List.mem_singleton.1 h ▸ hahead.advance _⟩
          case isFalse => cases h
  | bol => cases hr
  | notBehind p => cases hr
  | eol =>
      rw [run] at h ⊢
      rw [hahead.rest]
      split at h
      case isTrue heol =>
        rw [if_pos heol]
        exact ⟨d, List.mem_singleton_self d, List.mem_singleton.1 h ▸ hahead⟩
      case isFalse => cases h
  | notAhead p =>
      obtain ⟨rfl, hfree⟩ := mem_run_notAhead h
      rw [← hahead.rest] at hfree
      exact ⟨d, by rw [run_notAhead hfree]; exact List.mem_singleton_self d, hahead⟩

/-- A test that passes has found a place. -/
theorem run_of_test {r : Regex} {s : JsString} (h : r.test s = true) :
    ∃ pre post c, s = pre ++ post ∧ c ∈ run r ⟨pre.reverse, post, fun _ => none⟩ := by
  have hfrom : ∀ (s before : JsString), r.testFrom before s = true →
      ∃ pre post c, s = pre ++ post ∧ c ∈ run r ⟨pre.reverse ++ before, post, fun _ => none⟩ := by
    have hhere : ∀ (s before : JsString), (r.exec before s).isSome = true →
        ∃ c, c ∈ run r ⟨before, s, fun _ => none⟩ := by
      intro s before hexec
      obtain ⟨c, hc⟩ := Option.isSome_iff_exists.1 hexec
      exact ⟨c, List.mem_of_mem_head? hc⟩
    intro s
    induction s with
    | nil =>
        intro before hs
        obtain ⟨c, hc⟩ := hhere [] before hs
        exact ⟨[], [], c, rfl, hc⟩
    | cons x s ih =>
        intro before hs
        rw [testFrom, Bool.or_eq_true] at hs
        rcases hs with hs | hs
        · obtain ⟨c, hc⟩ := hhere (x :: s) before hs
          exact ⟨[], x :: s, c, rfl, hc⟩
        · obtain ⟨pre, post, c, rfl, hc⟩ := ih (x :: before) hs
          refine ⟨x :: pre, post, c, rfl, ?_⟩
          rwa [List.reverse_cons, List.append_assoc]
  obtain ⟨pre, post, c, hs, hc⟩ := hfrom s [] h
  rw [List.append_nil] at hc
  exact ⟨pre, post, c, hs, hc⟩

/-- What passes the test of such an expression passes it behind any text. -/
theorem test_append_left {r : Regex} (hr : r.forward = true) (a : JsString) {s : JsString}
    (h : r.test s = true) : r.test (a ++ s) = true := by
  obtain ⟨pre, post, c, rfl, hc⟩ := run_of_test h
  have hahead : SameAhead ⟨pre.reverse, post, fun _ => none⟩
      ⟨(a ++ pre).reverse, post, fun _ => none⟩ := ⟨rfl, rfl⟩
  obtain ⟨d, hd, -⟩ := run_forward hr hahead hc
  rw [← List.append_assoc]
  exact test_of_run hd

end Regex
