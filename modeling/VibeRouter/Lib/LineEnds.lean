import VibeRouter.Lib.Incremental
import VibeRouter.Lib.RegexShapes
import Mathlib.Data.List.Infix

/-! # Records that end with a blank line

`/\r?\n\r?\n/` separates records.  Cutting the first record from a text (`nextRecord`) reads a text
from the left to its first separator (`nextRecord_eq`).  What is cut does not depend on what
follows: a separator that the end of the text has broken off is followed by no other one
(`cut_broken`).  So records are cut from a stream as they are from the whole text (`records`). -/

namespace Regex

/-! ### Searching and splitting -/

/-- `text.search(r)`; `none` is -1. -/
def search (r : Regex) (text : JsString) : Option ℕ := (r.matchAll text).head?.map Match.index

/-- What lies between matches, from a place on. -/
def pieces (text : JsString) : ℕ → List Match → List JsString
  | start, [] => [text.drop start]
  | start, m :: ms => text.slice start m.index :: pieces text m.stop ms

/-- `text.split(r)`, for an expression that matches no empty text. -/
def split (r : Regex) (text : JsString) : List JsString := pieces text 0 (r.matchAll text)

/-- `/\r?\n/`. -/
def lineEnd : Regex := seq (opt (char fun c => c == 13)) (char fun c => c == 10)

/-- `/\r?\n\r?\n/`. -/
def blankLine : Regex := seq lineEnd lineEnd

/-- `/^\r?\n\r?\n/`. -/
def blankLineAtStart : Regex := seq bol blankLine

/-- The first record of a text, and the text behind its separator. -/
def nextRecord (text : JsString) : Option (JsString × JsString) :=
  (search blankLine text).map fun sep =>
    (text.slice 0 sep, blankLineAtStart.removeFirst (text.drop sep))

/-! ### Where a line ends -/

/-- The length of the line end that a text starts with. -/
def lineEndLength : JsString → Option ℕ
  | 10 :: _ => some 1
  | 13 :: 10 :: _ => some 2
  | _ => none

/-- The length of the separator that a text starts with. -/
def blankLength (text : JsString) : Option ℕ :=
  (lineEndLength text).bind fun m => (lineEndLength (text.drop m)).map fun n => m + n

theorem run_lineEnd (c : Cursor) : run lineEnd c = ((lineEndLength c.rest).map c.advance).toList := by
  unfold lineEnd
  rw [run, run_opt_char]
  obtain ⟨before, rest, groups⟩ := c
  cases rest with
  | nil => rfl
  | cons x xs =>
      dsimp only
      by_cases hx : x = 13
      · subst hx
        cases xs with
        | nil => rfl
        | cons y ys =>
            by_cases hy : y = 10
            · subst hy
              rfl
            · have hlength : lineEndLength (13 :: y :: ys) = none := by
                unfold lineEndLength
                split
                case h_1 heq => cases heq
                case h_2 heq =>
                  cases heq
                  exact absurd rfl hy
                case h_3 => rfl
              rw [hlength]
              simp [run_char, Cursor.advance, hy]
      · by_cases hten : x = 10
        · subst hten
          rfl
        · have hlength : lineEndLength (x :: xs) = none := by
            unfold lineEndLength
            split
            case h_1 heq =>
              cases heq
              exact absurd rfl hten
            case h_2 heq =>
              cases heq
              exact absurd rfl hx
            case h_3 => rfl
          rw [hlength]
          simp [run_char, hx, hten]

theorem run_blankLine (c : Cursor) :
    run blankLine c = ((blankLength c.rest).map c.advance).toList := by
  unfold blankLine blankLength
  rw [run, run_lineEnd]
  cases hm : lineEndLength c.rest with
  | none => rfl
  | some m =>
      rw [Option.map_some, Option.toList_some, List.flatMap_singleton, run_lineEnd,
        Cursor.rest_advance]
      cases hn : lineEndLength (c.rest.drop m) with
      | none => simp [hn]
      | some n => simp [hn, Cursor.advance_advance]

theorem exec_blankLine (before rest : JsString) :
    blankLine.exec before rest = (blankLength rest).map (⟨before, rest, fun _ => none⟩ : Cursor).advance := by
  unfold exec
  rw [run_blankLine]
  cases blankLength rest <;> rfl

theorem exec_blankLineAtStart (rest : JsString) :
    blankLineAtStart.exec [] rest = blankLine.exec [] rest := by
  unfold exec blankLineAtStart
  rw [run, run]
  simp

/-! ### The first separator -/

/-- A text cut at its first separator. -/
def cut : JsString → Option (JsString × JsString)
  | [] => none
  | x :: xs => match blankLength (x :: xs) with
    | some n => some ([], (x :: xs).drop n)
    | none => (cut xs).map fun p => (x :: p.1, p.2)

theorem cut_of_length {text : JsString} {n : ℕ} (h : blankLength text = some n) :
    cut text = some ([], text.drop n) := by
  cases text with
  | nil => cases h
  | cons x xs =>
      unfold cut
      rw [h]

theorem cut_cons {x : ℕ} {xs : JsString} (h : blankLength (x :: xs) = none) :
    cut (x :: xs) = (cut xs).map fun p => (x :: p.1, p.2) := by
  rw [cut]
  rw [h]

theorem cut_append {pre post : JsString} {n : ℕ} (hn : blankLength post = some n)
    (h : ∀ pre' post', pre ++ post = pre' ++ post' → pre'.length < pre.length →
      blankLength post' = none) :
    cut (pre ++ post) = some (pre, post.drop n) := by
  induction pre with
  | nil => exact cut_of_length hn
  | cons x pre ih =>
      have hhere : blankLength (x :: (pre ++ post)) = none := h [] _ rfl (Nat.succ_pos _)
      have hrest : cut (pre ++ post) = some (pre, post.drop n) := by
        refine ih fun pre' post' hsplit hlt => h (x :: pre') post' ?_ (Nat.succ_lt_succ hlt)
        exact congrArg (x :: ·) hsplit
      rw [List.cons_append, cut_cons hhere, hrest]
      rfl

theorem cut_eq_none {text : JsString}
    (h : ∀ pre post, text = pre ++ post → blankLength post = none) : cut text = none := by
  induction text with
  | nil => rfl
  | cons x xs ih =>
      have hhere : blankLength (x :: xs) = none := h [] _ rfl
      rw [cut_cons hhere, ih fun pre post hsplit => h (x :: pre) post (congrArg (x :: ·) hsplit)]
      rfl

theorem lineEndLength_le {text : JsString} {n : ℕ} (h : lineEndLength text = some n) :
    0 < n ∧ n ≤ text.length := by
  unfold lineEndLength at h
  split at h
  · cases h
    simp
  · cases h
    simp
  · cases h

theorem blankLength_le {text : JsString} {n : ℕ} (h : blankLength text = some n) :
    0 < n ∧ n ≤ text.length := by
  unfold blankLength at h
  obtain ⟨m, hm, h⟩ := Option.bind_eq_some_iff.1 h
  obtain ⟨k, hk, rfl⟩ := Option.map_eq_some_iff.1 h
  have hfirst := lineEndLength_le hm
  have hsecond := lineEndLength_le hk
  rw [List.length_drop] at hsecond
  omega

/-- **Cutting the first record** reads the text from the left to its first separator. -/
theorem nextRecord_eq (text : JsString) : nextRecord text = cut text := by
  unfold nextRecord search matchAll
  rcases head_matchFrom blankLine (text.length + 1) [] text (Nat.lt_succ_self _) with
    ⟨hhead, hnone⟩ | ⟨pre, post, c, hsplit, hsome, hhead, hnone⟩
  · have hcut : cut text = none := by
      refine cut_eq_none fun pre post hsplit => ?_
      have hexec := hnone pre post hsplit
      rw [exec_blankLine] at hexec
      exact Option.map_eq_none_iff.1 hexec
    rw [hhead, hcut]
    rfl
  · rw [exec_blankLine] at hsome
    obtain ⟨n, hn, hc⟩ := Option.map_eq_some_iff.1 hsome
    have hcut : cut text = some (pre, post.drop n) := by
      rw [hsplit]
      refine cut_append hn fun pre' post' hsplit' hlt => ?_
      have hexec := hnone pre' post' (hsplit.trans hsplit') hlt
      rw [exec_blankLine] at hexec
      exact Option.map_eq_none_iff.1 hexec
    have hremove : blankLineAtStart.removeFirst post = post.drop n := by
      have hexec : blankLineAtStart.exec [] post =
          some ((⟨[], post, fun _ => none⟩ : Cursor).advance n) := by
        rw [exec_blankLineAtStart, exec_blankLine, hn]
        rfl
      rcases removeFirst_cases blankLineAtStart post with
        ⟨-, hnowhere⟩ | ⟨pre', post', c', hsplit', hsome', hremoved, hbefore⟩
      · have hstart := hnowhere [] post rfl
        rw [List.reverse_nil, hexec] at hstart
        cases hstart
      · have hpre : pre' = [] := by
          by_contra hne
          have hstart := hbefore [] post rfl (List.length_pos_iff.2 hne)
          rw [List.reverse_nil, hexec] at hstart
          cases hstart
        subst hpre
        replace hsplit' : post = post' := hsplit'
        rw [← hsplit', List.reverse_nil, hexec] at hsome'
        rw [hremoved, ← Option.some.inj hsome']
        rfl
    rw [hhead, hcut]
    simp [JsString.slice, hsplit, hremove]

/-! ### What follows does not matter -/

/-- What `/\r?\n\r?\n/` matches. -/
def separators : List JsString := [[10, 10], [10, 13, 10], [13, 10, 10], [13, 10, 13, 10]]

theorem lineEndLength_append {text : JsString} {n : ℕ} (more : JsString)
    (h : lineEndLength text = some n) : lineEndLength (text ++ more) = some n := by
  unfold lineEndLength at h
  split at h
  · cases h
    rfl
  · cases h
    rfl
  · cases h

theorem blankLength_append {text : JsString} {n : ℕ} (more : JsString)
    (h : blankLength text = some n) : blankLength (text ++ more) = some n := by
  unfold blankLength at h ⊢
  obtain ⟨m, hm, h⟩ := Option.bind_eq_some_iff.1 h
  obtain ⟨k, hk, rfl⟩ := Option.map_eq_some_iff.1 h
  rw [lineEndLength_append more hm, Option.bind_some,
    List.drop_append_of_le_length (lineEndLength_le hm).2, lineEndLength_append more hk]
  rfl

theorem starts_with_lineEnd {text : JsString} {n : ℕ} (h : lineEndLength text = some n) :
    text = 10 :: text.drop n ∨ text = 13 :: 10 :: text.drop n := by
  unfold lineEndLength at h
  split at h
  · cases h
    exact Or.inl rfl
  · cases h
    exact Or.inr rfl
  · cases h

theorem starts_with_separator {text : JsString} {n : ℕ} (h : blankLength text = some n) :
    ∃ sep ∈ separators, ∃ rest, text = sep ++ rest := by
  unfold blankLength at h
  obtain ⟨m, hm, h⟩ := Option.bind_eq_some_iff.1 h
  obtain ⟨k, hk, -⟩ := Option.map_eq_some_iff.1 h
  rcases starts_with_lineEnd hm with hfirst | hfirst <;>
    rcases starts_with_lineEnd hk with hsecond | hsecond
  · exact ⟨[10, 10], by decide, _, hfirst.trans (congrArg (10 :: ·) hsecond)⟩
  · exact ⟨[10, 13, 10], by decide, _, hfirst.trans (congrArg (10 :: ·) hsecond)⟩
  · exact ⟨[13, 10, 10], by decide, _, hfirst.trans (congrArg (13 :: 10 :: ·) hsecond)⟩
  · exact ⟨[13, 10, 13, 10], by decide, _, hfirst.trans (congrArg (13 :: 10 :: ·) hsecond)⟩

/-- A part of a separator holds no separator, unless it starts with one. -/
theorem cut_inits : ∀ sep ∈ separators, ∀ part ∈ sep.inits, blankLength part = none →
    cut part = none := by
  decide

/-- A separator that the end of a text breaks off is the last thing in it. -/
theorem cut_broken {text more : JsString} {n : ℕ} (hnone : blankLength text = none)
    (hsome : blankLength (text ++ more) = some n) : cut text = none := by
  obtain ⟨sep, hsep, rest, hsplit⟩ := starts_with_separator hsome
  rcases List.append_eq_append_iff.1 hsplit with ⟨part, hpart, -⟩ | ⟨part, hpart, -⟩
  · exact cut_inits sep hsep text ((List.mem_inits _ _).2 ⟨part, hpart.symm⟩) hnone
  · obtain ⟨m, hm⟩ : ∃ m, blankLength sep = some m := by
      simp only [separators, List.mem_cons, List.not_mem_nil, or_false] at hsep
      rcases hsep with rfl | rfl | rfl | rfl
      all_goals exact ⟨_, rfl⟩
    rw [hpart, blankLength_append part hm] at hnone
    cases hnone

/-- **The first record stays the first**, whatever follows the text. -/
theorem cut_stable {text record rest : JsString} (more : JsString)
    (h : cut text = some (record, rest)) : cut (text ++ more) = some (record, rest ++ more) := by
  induction text generalizing record with
  | nil => cases h
  | cons x xs ih =>
      cases hn : blankLength (x :: xs) with
      | some n =>
          rw [cut_of_length hn] at h
          cases h
          rw [cut_of_length (blankLength_append more hn),
            List.drop_append_of_le_length (blankLength_le hn).2]
      | none =>
          have hnext : blankLength (x :: (xs ++ more)) = none := by
            cases hn' : blankLength (x :: (xs ++ more)) with
            | none => rfl
            | some n =>
                have hbroken : cut (x :: xs) = none := cut_broken hn hn'
                rw [h] at hbroken
                cases hbroken
          rw [cut_cons hn] at h
          obtain ⟨p, hp, heq⟩ := Option.map_eq_some_iff.1 h
          cases heq
          rw [List.cons_append, cut_cons hnext, ih hp]
          rfl

theorem cut_shorter {text record rest : JsString} (h : cut text = some (record, rest)) :
    rest.length < text.length := by
  induction text generalizing record with
  | nil => cases h
  | cons x xs ih =>
      cases hn : blankLength (x :: xs) with
      | some n =>
          have hlength := blankLength_le hn
          rw [cut_of_length hn] at h
          cases h
          rw [List.length_drop]
          omega
      | none =>
          rw [cut_cons hn] at h
          obtain ⟨p, hp, heq⟩ := Option.map_eq_some_iff.1 h
          cases heq
          exact Nat.lt_succ_of_lt (ih hp)

/-- Records that end with a blank line. -/
def records : Splitter ℕ JsString where
  next := nextRecord
  shorter := by
    intro text record rest h
    exact cut_shorter (nextRecord_eq text ▸ h)
  stable := by
    intro text record rest more h
    rw [nextRecord_eq] at h ⊢
    exact cut_stable more h

/-! ### Records of one line -/

/-- A text without a character that ends a line. -/
def Unbroken (text : JsString) : Prop := ∀ c ∈ text, c ≠ 10 ∧ c ≠ 13

theorem Unbroken.append {text text' : JsString} (h : Unbroken text) (h' : Unbroken text') :
    Unbroken (text ++ text') := by
  intro c hc
  rcases List.mem_append.1 hc with hc | hc
  · exact h c hc
  · exact h' c hc

theorem lineEndLength_cons {c : ℕ} (h : c ≠ 10 ∧ c ≠ 13) (text : JsString) :
    lineEndLength (c :: text) = none := by
  unfold lineEndLength
  split
  case h_1 heq =>
    cases heq
    exact absurd rfl h.1
  case h_2 heq =>
    cases heq
    exact absurd rfl h.2
  case h_3 => rfl

/-- A record of one line is cut off at its separator. -/
theorem next_unbroken {record : JsString} (h : Unbroken record) (rest : JsString) :
    records.next (record ++ 10 :: 10 :: rest) = some (record, rest) := by
  show nextRecord _ = _
  rw [nextRecord_eq]
  refine cut_append (n := 2) rfl fun pre post hsplit hlt => ?_
  rcases List.append_eq_append_iff.1 hsplit with ⟨part, hpart, -⟩ | ⟨part, hpart, hpost⟩
  · rw [hpart, List.length_append] at hlt
    omega
  · cases part with
    | nil =>
        rw [hpart, List.append_nil] at hlt
        omega
    | cons c part =>
        have hc : c ∈ record := by
          rw [hpart]
          exact List.mem_append_right _ List.mem_cons_self
        unfold blankLength
        rw [hpost, List.cons_append, lineEndLength_cons (h c hc)]
        rfl

/-- **Records of one line** are cut as they have been joined. -/
theorem drain_unbroken {rs : List JsString} (h : ∀ r ∈ rs, Unbroken r) :
    records.drain (rs.flatMap fun r => r ++ [10, 10]) = (rs, []) := by
  induction rs with
  | nil => exact records.drain_of_none (nextRecord_eq [])
  | cons r rs ih =>
      obtain ⟨hr, hrs⟩ := List.forall_mem_cons.1 h
      have hnext := next_unbroken hr (rs.flatMap fun r => r ++ [10, 10])
      rw [List.flatMap_cons, List.append_assoc]
      rw [show r ++ ([10, 10] ++ rs.flatMap fun r => r ++ [10, 10]) =
        r ++ 10 :: 10 :: (rs.flatMap fun r => r ++ [10, 10]) from rfl, records.drain_of_some hnext, ih hrs]

/-- A text of one line is its only line. -/
theorem split_unbroken {text : JsString} (h : Unbroken text) : split lineEnd text = [text] := by
  have hnone : lineEnd.matchAll text = [] := by
    unfold matchAll
    rcases head_matchFrom lineEnd (text.length + 1) [] text (Nat.lt_succ_self _) with
      ⟨hhead, -⟩ | ⟨pre, post, c, hsplit, hsome, -, -⟩
    · exact List.head?_eq_none_iff.1 hhead
    · unfold exec at hsome
      rw [run_lineEnd] at hsome
      cases post with
      | nil => cases hsome
      | cons x xs =>
          have hx : x ∈ text := by
            rw [hsplit]
            exact List.mem_append_right _ List.mem_cons_self
          dsimp only at hsome
          rw [lineEndLength_cons (h x hx)] at hsome
          cases hsome
  unfold split
  rw [hnone]
  exact congrArg (· :: []) (List.drop_zero ..)

end Regex
