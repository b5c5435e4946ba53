import VibeRouter.Gateway.Verify
import VibeRouter.Lib.RegexRuns
import VibeRouter.Lib.Trim

/-! # Code fences

What is left when the fences around a text are removed is trimmed, so that `stripFence` need not
trim it again. -/

namespace VibeRouter

open Regex JsString

/-- The text between the fences, as the SDK takes it. -/
def unfence (raw : JsString) : JsString := fenceClose.removeFirst (fenceOpen.removeFirst raw.trim)

theorem run_eps (c : Cursor) : run eps c = [c] := by rw [run]

theorem run_seq (r s : Regex) (c : Cursor) : run (seq r s) c = (run r c).flatMap (run s) := by
  rw [run]

/-- An opening fence is matched at the start of the text, with the white space behind it. -/
theorem fenceOpen_match {before rest : JsString} {c : Cursor}
    (h : fenceOpen.exec before rest = some c) :
    before = [] ∧ ∀ x ∈ c.rest.head?, isSpace x = false := by
  unfold exec fenceOpen cat at h
  simp only [List.foldr_cons, List.foldr_nil] at h
  rw [run_seq, run] at h
  by_cases hbefore : before = []
  · refine ⟨hbefore, ?_⟩
    rw [if_pos hbefore, List.flatMap_singleton, run_seq, List.head?_flatMap] at h
    obtain ⟨c₁, -, h⟩ := List.exists_of_findSome?_eq_some h
    rw [run_seq, List.head?_flatMap] at h
    obtain ⟨c₂, -, h⟩ := List.exists_of_findSome?_eq_some h
    have heps : (run (seq space.star eps) c₂) = run space.star c₂ := by
      rw [run_seq, funext run_eps]
      exact List.flatMap_singleton' _
    rw [heps] at h
    have hhead := head_run_star_char isSpace c₂
    replace h : (run (star (char isSpace)) c₂).head? = some c := h
    rw [hhead, Option.some.injEq] at h
    have hrest : c.rest = c₂.rest.dropWhile isSpace := by
      rw [← h, Cursor.rest_advance]
      have hsplit := List.takeWhile_append_dropWhile (p := isSpace) (l := c₂.rest)
      calc c₂.rest.drop (c₂.rest.takeWhile isSpace).length
          = (c₂.rest.takeWhile isSpace ++ c₂.rest.dropWhile isSpace).drop
              (c₂.rest.takeWhile isSpace).length := by rw [hsplit]
        _ = c₂.rest.dropWhile isSpace := List.drop_left
    rw [hrest]
    exact head_dropWhile isSpace c₂.rest
  · rw [if_neg hbefore] at h
    cases h

/-- A closing fence is matched at the end of the text, with the white space before it. -/
theorem mem_fenceClose (before rest : JsString) {c : Cursor} :
    c ∈ run fenceClose ⟨before, rest, fun _ => none⟩ ↔
      ∃ ws, (∀ x ∈ ws, isSpace x = true) ∧ rest = ws ++ js "```" ∧
        c = (⟨before, rest, fun _ => none⟩ : Cursor).advance (ws.length + (js "```").length) := by
  unfold fenceClose cat
  simp only [List.foldr_cons, List.foldr_nil]
  rw [run_seq, List.mem_flatMap]
  constructor
  · intro h
    obtain ⟨c₁, hc₁, hc⟩ := h
    obtain ⟨ws, tail, hsplit, hws, rfl⟩ := mem_run_star_char.1 hc₁
    replace hsplit : rest = ws ++ tail := hsplit
    rw [run_seq, run_literal] at hc
    split at hc
    · next hprefix =>
        rw [List.flatMap_singleton, run_seq, run] at hc
        split at hc
        · next hend =>
            rw [List.flatMap_singleton, run_eps, List.mem_singleton] at hc
            obtain ⟨t, ht⟩ := hprefix
            replace ht : js "```" ++ t = rest.drop ws.length := ht
            replace hend : (rest.drop ws.length).drop (js "```").length = [] := hend
            rw [hsplit, List.drop_left] at ht hend
            rw [← ht, List.drop_left] at hend
            rw [hend, List.append_nil] at ht
            refine ⟨ws, hws, by rw [hsplit, ht], ?_⟩
            rw [hc, Cursor.advance_advance]
        · cases hc
    · cases hc
  · intro h
    obtain ⟨ws, hws, hrest, rfl⟩ := h
    refine ⟨_, mem_run_star_char.2 ⟨ws, js "```", hrest, hws, rfl⟩, ?_⟩
    have hdrop : rest.drop ws.length = js "```" := by rw [hrest, List.drop_left]
    rw [run_seq, run_literal, Cursor.rest_advance]
    have hprefix : js "```" <+: rest.drop ws.length := hdrop ▸ List.prefix_rfl
    have hend : (rest.drop ws.length).drop (js "```").length = [] := by rw [hdrop, List.drop_length]
    rw [if_pos hprefix, List.flatMap_singleton, run_seq, run, Cursor.rest_advance,
      Cursor.rest_advance, if_pos hend, List.flatMap_singleton, run_eps, Cursor.advance_advance]
    exact List.mem_singleton_self _

theorem fenceOpen_trimmed {s : JsString} (h : s.Trimmed) : (fenceOpen.removeFirst s).Trimmed := by
  rcases removeFirst_cases fenceOpen s with ⟨hsame, -⟩ | ⟨pre, post, c, hsplit, hexec, hremoved, -⟩
  · rw [hsame]
    exact h
  · obtain ⟨hstart, hhead⟩ := fenceOpen_match hexec
    have hpre : pre = [] := List.reverse_eq_nil_iff.1 hstart
    obtain ⟨matched, hmatched⟩ := exec_suffix hexec
    rw [hremoved, hpre, List.nil_append]
    refine Trimmed.of_suffix (s := matched) ?_ hhead
    rw [hmatched]
    rw [hpre, List.nil_append] at hsplit
    rw [← hsplit]
    exact h

theorem fenceClose_trimmed {s : JsString} (h : s.Trimmed) : (fenceClose.removeFirst s).Trimmed := by
  rcases removeFirst_cases fenceClose s with
    ⟨hsame, -⟩ | ⟨pre, post, c, hsplit, hexec, hremoved, hfirst⟩
  · rw [hsame]
    exact h
  · obtain ⟨ws, hws, hpost, rfl⟩ := (mem_fenceClose _ _).1 (List.mem_of_mem_head? hexec)
    have hrest : post.drop (ws.length + (js "```").length) = [] := by
      rw [hpost, ← List.length_append, List.drop_length]
    rw [hremoved, Cursor.rest_advance, hrest, List.append_nil]
    rw [hsplit] at h
    refine h.of_prefix fun x hx => ?_
    by_contra hspace
    rw [Bool.not_eq_false] at hspace
    -- otherwise the match would begin at that white space
    obtain ⟨front, hfront⟩ := List.getLast?_eq_some_iff.1 hx
    have hnone := hfirst front (x :: post) (by rw [hsplit, hfront]; simp) (by rw [hfront]; simp)
    have hspaces : ∀ y ∈ x :: ws, isSpace y = true := by
      intro y hy
      rcases List.mem_cons.1 hy with rfl | hy
      · exact hspace
      · exact hws y hy
    have hmatch := (mem_fenceClose front.reverse (x :: post)).2 ⟨x :: ws, hspaces, by rw [hpost]; rfl, rfl⟩
    rw [List.head?_eq_none_iff.1 hnone] at hmatch
    cases hmatch

/-- **What is left between the fences is trimmed.** -/
theorem unfence_trimmed (raw : JsString) : (unfence raw).Trimmed :=
  fenceClose_trimmed (fenceOpen_trimmed (trimmed_trim raw))

theorem stripFence_eq_unfence (raw : JsString) : stripFence raw = unfence raw :=
  trim_of_trimmed (unfence_trimmed raw)

end VibeRouter
