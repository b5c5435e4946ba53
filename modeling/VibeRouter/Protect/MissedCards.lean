import VibeRouter.Protect.Cards
import Mathlib.Data.List.Pairwise

/-! # Card numbers that are missed

A card number that stands alone in a text is not always inside a match: the search reads rows of
digits from left to right and takes the longest, so that a number next to it can end up in the row
and spoil its check digit.  `card_covered_iff` says exactly when every character of the number lies
in a match: when the row read there covers it and is itself a card number, or when it is a plain run
of digits that is taken for an account number. -/

namespace VibeRouter

open Regex

/-! ### Which candidates a pass keeps -/

/-- Candidates of one pass do not get in each other's way: a valid one is kept exactly when no match
of an earlier pass overlaps it. -/
theorem mem_collect {type : MatchType} {valid : Match → Bool} {found : List Match}
    {ms : List ScrubMatch} (hchain : found.Pairwise fun m m' => m.stop ≤ m'.index) {s : ScrubMatch} :
    s ∈ collect type valid found ms ↔ s ∈ ms ∨ ∃ m ∈ found, valid m = true ∧
      overlaps ms m.index m.stop = false ∧ s = ⟨type, m.index, m.stop⟩ := by
  induction found generalizing ms with
  | nil =>
      constructor
      · exact Or.inl
      · intro h
        rcases h with h | ⟨m, hm, -⟩
        · exact h
        · cases hm
  | cons m found ih =>
      obtain ⟨hfirst, hrest⟩ := List.pairwise_cons.1 hchain
      rw [collect_cons, ih hrest]
      simp only [List.exists_mem_cons_iff]
      by_cases hoverlaps : overlaps ms m.index m.stop = true
      · simp [hoverlaps]
      · have hfree := Bool.eq_false_iff.2 hoverlaps
        by_cases hvalid : valid m = true
        · -- the match added does not overlap the later candidates
          have hsame : ∀ m' ∈ found, overlaps (ms ++ [⟨type, m.index, m.stop⟩]) m'.index m'.stop =
              overlaps ms m'.index m'.stop := by
            intro m' hm'
            have hle := hfirst m' hm'
            have hlast : (m'.index < m.stop && m.index < m'.stop) = false := by
              rw [decide_eq_false (by omega), Bool.false_and]
            unfold overlaps
            rw [List.any_append, List.any_cons, List.any_nil, hlast, Bool.or_false, Bool.or_false]
          rw [if_neg hoverlaps, if_pos hvalid, List.mem_append, List.mem_singleton, or_assoc]
          refine or_congr_right (or_congr ?_ ?_)
          · simp [hvalid, hfree]
          · refine exists_congr fun m' => and_congr_right fun hm' => ?_
            rw [hsame m' hm']
        · simp [hoverlaps, hvalid]

/-! ### The edges of a match -/

theorem run_cat_notAhead {p : ℕ → Bool} {rs : List Regex} {c c' : Cursor}
    (h : c' ∈ run (cat (rs ++ [notAhead p])) c) : ∀ x ∈ c'.rest.head?, p x = false := by
  induction rs generalizing c with
  | nil =>
      obtain ⟨c₁, hc₁, hend⟩ := mem_run_seq.1 h
      obtain ⟨rfl, hafter⟩ := mem_run_notAhead hc₁
      have hend : c' ∈ run eps c₁ := hend
      rw [run] at hend
      rw [List.mem_singleton.1 hend]
      exact hafter
  | cons r rs ih =>
      obtain ⟨c₁, -, hmore⟩ := mem_run_seq.1 h
      exact ih hmore

/-- What is found of a standalone expression stands alone. -/
theorem alone_of_found {rs : List Regex} {text : JsString} {m : Match}
    (h : Found (standalone rs) text m) :
    ∃ pre post, text = pre ++ (m.text ++ post) ∧ m.index = pre.length ∧ Alone pre post := by
  obtain ⟨pre, c, htext, hindex, -, hexec⟩ := h
  obtain ⟨c₀, hc₀, hmore⟩ := mem_run_seq.1 (List.mem_of_mem_head? hexec)
  obtain ⟨rfl, hbefore⟩ := mem_run_notBehind hc₀
  refine ⟨pre, c.rest, ?_, hindex, head?_reverse_after hbefore, run_cat_notAhead hmore⟩
  rw [htext, List.append_assoc]

/-- A match as the search for one of the five kinds reports it. -/
structure Reported (text : JsString) (s : ScrubMatch) (pre span post : JsString) : Prop where
  split : text = pre ++ (span ++ post)
  alone : Alone pre post
  start : s.start = pre.length
  stop : s.stop = pre.length + span.length
  head : ∃ x ∈ span.head?, digitOrDash x = true

theorem reported_of_found {rs : List Regex} {text : JsString} {m : Match} (type : MatchType)
    (h : Found (standalone rs) text m) (hhead : ∃ x ∈ m.text.head?, digitOrDash x = true) :
    ∃ pre post, Reported text ⟨type, m.index, m.stop⟩ pre m.text post := by
  obtain ⟨pre, post, hsplit, hindex, halone⟩ := alone_of_found h
  refine ⟨pre, post, hsplit, halone, hindex, ?_, hhead⟩
  show m.index + m.text.length = _
  rw [hindex]

theorem head_of_within {p : ℕ → Bool} {r : Regex} {text : JsString} {m : Match}
    (hp : ∀ x, p x = true → digitOrDash x = true) (hr : Within p r) (hlength : 0 < r.minLen)
    (h : Found r text m) : ∃ x ∈ m.text.head?, digitOrDash x = true := by
  have hmin := h.minLen_le
  have hall := h.within hr
  cases hspan : m.text with
  | nil =>
      rw [hspan, List.length_nil] at hmin
      omega
  | cons x xs =>
      rw [hspan] at hall
      exact ⟨x, rfl, hp x (hall x List.mem_cons_self)⟩

theorem row_head {n : ℕ} {span : JsString} (h : Row n span) :
    ∃ x ∈ span.head?, digitOrDash x = true := by
  cases h with
  | one hd => exact ⟨_, rfl, digitOrDash_of_isDigit hd⟩
  | next hd more => exact ⟨_, rfl, digitOrDash_of_isDigit hd⟩
  | apart hd hs more => exact ⟨_, rfl, digitOrDash_of_isDigit hd⟩

/-! ### What is reported -/

/-- A card number among the rows read. -/
structure CardFound (text pre span post : JsString) : Prop extends CardRead text pre span post where
  luhn : luhnValid (span.filter fun c => !spaceOrDash c) = true
  issuer : iinValid (span.filter fun c => !spaceOrDash c) = true

theorem row_digits {n : ℕ} {span : JsString} (h : Row n span) :
    (span.filter fun c => !spaceOrDash c).length = n := by
  have hkeep : ∀ {d}, JsString.isDigit d = true → (!spaceOrDash d) = true := by
    intro d hd
    cases hs : spaceOrDash d with
    | false => rfl
    | true =>
        rw [isDigit_of_spaceOrDash hs] at hd
        cases hd
  have hcons : ∀ {d span}, JsString.isDigit d = true →
      ((d :: span).filter fun c => !spaceOrDash c).length =
        (span.filter fun c => !spaceOrDash c).length + 1 := by
    intro d span hd
    rw [List.filter_cons, if_pos (hkeep hd), List.length_cons]
  induction h with
  | one hd => rw [hcons hd, List.filter_nil, List.length_nil]
  | next hd _ ih => rw [hcons hd, ih]
  | @apart n d s span hd hs _ ih =>
      have hno : ¬(!spaceOrDash s) = true := by simp [hs]
      rw [hcons hd, List.filter_cons, if_neg hno, ih]

theorem validCard_iff {m : Match} (hrow : ∃ n, 13 ≤ n ∧ n ≤ 19 ∧ Row n m.text) :
    validCard m = true ↔ luhnValid (m.text.filter fun c => !spaceOrDash c) = true ∧
      iinValid (m.text.filter fun c => !spaceOrDash c) = true := by
  obtain ⟨n, hleast, hmost, hrow⟩ := hrow
  have hlength := row_digits hrow
  unfold validCard
  dsimp only
  rw [if_neg (by omega), Bool.and_eq_true]

theorem mem_scanCards {text : JsString} {s : ScrubMatch} :
    s ∈ scanCards text ↔ ∃ pre span post, CardFound text pre span post ∧
      s = ⟨.card, pre.length, pre.length + span.length⟩ := by
  unfold scanCards
  rw [List.mem_map]
  constructor
  · intro h
    obtain ⟨m, hm, rfl⟩ := h
    obtain ⟨hm, hvalid⟩ := List.mem_filter.1 hm
    obtain ⟨pre, post, hread, hindex⟩ := mem_cards hm
    obtain ⟨hluhn, hissuer⟩ := (validCard_iff hread.longest.row).1 hvalid
    refine ⟨pre, m.text, post, ⟨hread, hluhn, hissuer⟩, ?_⟩
    unfold Match.stop
    rw [hindex]
  · intro h
    obtain ⟨pre, span, post, hfound, rfl⟩ := h
    obtain ⟨m, hm, hindex, htext⟩ := hfound.toCardRead.found
    have hvalid : validCard m = true := by
      refine (validCard_iff ?_).2 ?_
      · rw [htext]
        exact hfound.longest.row
      · rw [htext]
        exact ⟨hfound.luhn, hfound.issuer⟩
    refine ⟨m, List.mem_filter.2 ⟨hm, hvalid⟩, ?_⟩
    unfold Match.stop
    rw [hindex, htext]

/-- What the expression for a run of digits finds. -/
theorem digits_shape {least most : ℕ} (hbounds : least ≤ most) {text : JsString} {m : Match}
    (h : Found (standalone [digit.upTo least most]) text m) :
    ∃ n, least ≤ n ∧ n ≤ most ∧ Digits n m.text := by
  obtain ⟨pre, c, -, -, -, hexec⟩ := h
  obtain ⟨-, -, n, hleast, hmost, hreads⟩ := (run_digits hbounds).1 (List.mem_of_mem_head? hexec)
  obtain ⟨ds, hsplit, hlength, hall, -⟩ := hreads.split
  have htext : m.text = ds := List.append_cancel_right hsplit
  rw [htext]
  exact ⟨n, hleast, hmost, hlength, hall⟩

/-- What the expression for employer identification numbers finds. -/
theorem ein_shape {text : JsString} {m : Match} (h : Found EIN text m) :
    ∃ campus serial, m.text = campus ++ 45 :: serial ∧ Digits 2 campus ∧ Digits 7 serial := by
  obtain ⟨pre, c, -, -, -, hexec⟩ := h
  obtain ⟨c₀, hc₀, hcampus⟩ := mem_run_seq.1 (List.mem_of_mem_head? hexec)
  obtain ⟨rfl, -⟩ := mem_run_notBehind hc₀
  obtain ⟨c₁, hc₁, hdash⟩ := mem_run_seq.1 hcampus
  obtain ⟨d₁, hd₁, rfl⟩ := mem_run_group.1 hc₁
  obtain ⟨campus, hrest, hlcampus, hacampus, -⟩ := (mem_run_times.1 hd₁).split
  obtain ⟨c₂, hc₂, hserial⟩ := mem_run_seq.1 hdash
  obtain ⟨c₃, hc₃, hend⟩ := mem_run_seq.1 hserial
  obtain ⟨d₃, hd₃, rfl⟩ := mem_run_group.1 hc₃
  obtain ⟨serial, hrest', hlserial, haserial, -⟩ := (mem_run_times.1 hd₃).split
  obtain ⟨c₄, hc₄, hend⟩ := mem_run_seq.1 hend
  obtain ⟨rfl, -⟩ := mem_run_notAhead hc₄
  have hend : c ∈ run eps _ := hend
  rw [run] at hend
  have hc : c.rest = d₃.rest := by
    rw [List.mem_singleton.1 hend]
    rfl
  rw [show js "-" = [45] from by decide, run_literal] at hc₂
  split at hc₂
  case isFalse => cases hc₂
  case isTrue hprefix =>
    obtain ⟨rest, hrest''⟩ := hprefix
    have hc₂ : c₂.rest = rest := by
      rw [List.mem_singleton.1 hc₂, Cursor.rest_advance, ← hrest'']
      rfl
    have hfirst : m.text ++ c.rest = campus ++ d₁.rest := hrest
    have hsecond : d₁.rest = [45] ++ rest := hrest''.symm
    rw [hsecond, ← hc₂, hrest', ← hc] at hfirst
    refine ⟨campus, serial, ?_, ⟨hlcampus, hacampus⟩, ⟨hlserial, haserial⟩⟩
    refine List.append_cancel_right (hfirst.trans ?_)
    simp

theorem ein_length {text : JsString} {m : Match} (h : Found EIN text m) : m.text.length = 10 := by
  obtain ⟨campus, serial, htext, hcampus, hserial⟩ := ein_shape h
  rw [htext, List.length_append, List.length_cons, hcampus.length, hserial.length]

/-! ### One match at a place -/

/-- What a scan finds: a card number, something shorter, or a run of digits. -/
theorem reported {text : JsString} {s : ScrubMatch} (h : s ∈ found text) :
    ∃ pre span post, Reported text s pre span post ∧ (CardFound text pre span post ∨
      span.length ≤ 11 ∨ (∃ n, n ≤ 17 ∧ Digits n span) ∧ ∃ m : Match, m.index = pre.length ∧
        m.stop = pre.length + span.length ∧ validAccount text (routingSpans (scanEin text
          (scanSsn text (scanRouting text (scanCards text))))) m = true) := by
  have hnine := matchAll_pairwise NINE_DIGITS text
  have hdigit : Within JsString.isDigit NINE_DIGITS := ⟨trivial, fun x hx => hx, trivial, trivial⟩
  have hshort : ∀ m ∈ NINE_DIGITS.matchAll text, ∀ type, ∃ pre post,
      Reported text ⟨type, m.index, m.stop⟩ pre m.text post ∧ m.text.length ≤ 11 := by
    intro m hm type
    have hfound := found_of_mem_matchAll hm
    obtain ⟨n, -, hn, hdigits⟩ := digits_shape (Nat.le_refl 9) hfound
    have hhead := head_of_within (fun x => digitOrDash_of_isDigit) hdigit (by decide) hfound
    obtain ⟨pre, post, hreported⟩ := reported_of_found type hfound hhead
    rw [hdigits.length]
    exact ⟨pre, post, hreported, by omega⟩
  unfold found scanAccount at h
  rcases (mem_collect (matchAll_pairwise ACCOUNT_DIGITS text)).1 h with h | ⟨m, hm, hvalid, -, rfl⟩
  · unfold scanEin at h
    rcases (mem_collect (matchAll_pairwise EIN text)).1 h with h | ⟨m, hm, -, -, rfl⟩
    · unfold scanSsn at h
      rcases (mem_collect hnine).1 h with h | ⟨m, hm, -, -, rfl⟩
      · rcases (mem_collect (matchAll_pairwise SSN text)).1 h with h | ⟨m, hm, -, -, rfl⟩
        · rcases (mem_collect hnine).1 h with h | ⟨m, hm, -, -, rfl⟩
          · obtain ⟨pre, span, post, hcard, rfl⟩ := mem_scanCards.1 h
            obtain ⟨n, -, -, hrow⟩ := hcard.longest.row
            exact ⟨pre, span, post, ⟨hcard.comes.split, hcard.longest.alone, rfl, rfl, row_head hrow⟩,
              Or.inl hcard⟩
          · obtain ⟨pre, post, hreported, hlength⟩ := hshort m hm .routing
            exact ⟨pre, m.text, post, hreported, Or.inr (Or.inl hlength)⟩
        · have hfound := found_of_mem_matchAll hm
          obtain ⟨area, grp, serial, sep, hshape, harea, hgroup, hserial, -⟩ := ssn_shape hfound
          have hhead : ∃ x ∈ m.text.head?, digitOrDash x = true := by
            have hlength := harea.length
            have hall := harea.all
            cases area with
            | nil => cases hlength
            | cons x xs =>
                rw [hshape]
                exact ⟨x, rfl, digitOrDash_of_isDigit (hall x List.mem_cons_self)⟩
          obtain ⟨pre, post, hreported⟩ := reported_of_found .ssn hfound hhead
          have hlength : m.text.length ≤ 11 := by
            rw [hshape, ssn_length _ harea hgroup hserial]
          exact ⟨pre, m.text, post, hreported, Or.inr (Or.inl hlength)⟩
      · obtain ⟨pre, post, hreported, hlength⟩ := hshort m hm .ssn
        exact ⟨pre, m.text, post, hreported, Or.inr (Or.inl hlength)⟩
    · have hfound := found_of_mem_matchAll hm
      have hhead := head_of_within (fun x hx => hx) within_ein (by decide) hfound
      obtain ⟨pre, post, hreported⟩ := reported_of_found .ein hfound hhead
      have hlength : m.text.length ≤ 11 := by
        rw [ein_length hfound]
        decide
      exact ⟨pre, m.text, post, hreported, Or.inr (Or.inl hlength)⟩
  · have hfound := found_of_mem_matchAll hm
    have hwithin : Within JsString.isDigit ACCOUNT_DIGITS :=
      ⟨trivial, fun x hx => hx, trivial, trivial⟩
    have hhead := head_of_within (fun x => digitOrDash_of_isDigit) hwithin (by decide) hfound
    obtain ⟨n, -, hn, hdigits⟩ := digits_shape (by decide : 6 ≤ 17) hfound
    obtain ⟨pre, post, hreported⟩ := reported_of_found .account hfound hhead
    exact ⟨pre, m.text, post, hreported,
      Or.inr (Or.inr ⟨⟨n, hn, hdigits⟩, m, hreported.start, hreported.stop, hvalid⟩)⟩

/-- Every character from `start` to `stop` lies in a match of the scan. -/
def Covered (text : JsString) (start stop : ℕ) : Prop :=
  ∀ i, start ≤ i → i < stop → ∃ m ∈ scanText text, m.start ≤ i ∧ i < m.stop

/-- No match starts where another ends. -/
theorem Reported.not_adjacent {text pre span post pre' span' post' : JsString} {s s' : ScrubMatch}
    (h : Reported text s pre span post) (h' : Reported text s' pre' span' post') :
    s.stop ≠ s'.start := by
  intro heq
  have hlength : (pre ++ span).length = pre'.length := by
    rw [List.length_append, ← h.stop, heq, h'.start]
  have hsplit : (pre ++ span) ++ post = pre' ++ (span' ++ post') := by
    rw [List.append_assoc, ← h.split, h'.split]
  obtain ⟨-, hpost⟩ := List.append_inj hsplit hlength
  obtain ⟨x, hx, hchar⟩ := h'.head
  have hhead : x ∈ post.head? := by
    rw [hpost]
    cases span' with
    | nil => cases hx
    | cons y ys => exact hx
  rw [h.alone.after x hhead] at hchar
  cases hchar

/-- Characters that are covered are covered by one match. -/
theorem one_covers {text : JsString} {start stop : ℕ} (hlt : start < stop)
    (h : Covered text start stop) : ∃ s ∈ found text, s.start ≤ start ∧ stop ≤ s.stop := by
  have hspans := Spans.found text
  obtain ⟨s, hs, hstart, hfirst⟩ := h start (Nat.le_refl _) hlt
  rw [(scanText_perm text).mem_iff] at hs
  refine ⟨s, hs, hstart, ?_⟩
  by_contra hshort
  obtain ⟨s', hs', hstart', hstop'⟩ := h s.stop (by omega) (by omega)
  rw [(scanText_perm text).mem_iff] at hs'
  have hne : s ≠ s' := by
    intro heq
    rw [heq] at hstop'
    omega
  have : Std.Symm ScrubMatch.Apart := ⟨fun a b h => h.symm⟩
  have hapart := hspans.disjoint.forall hs hs' hne
  unfold ScrubMatch.Apart at hapart
  have hmeet : s.stop = s'.start := by omega
  obtain ⟨pre, span, post, hreported, -⟩ := reported hs
  obtain ⟨pre', span', post', hreported', -⟩ := reported hs'
  exact hreported.not_adjacent hreported' hmeet

/-- A run of digits that covers a text standing alone is that text. -/
theorem eq_of_covers {pre num post p span q : JsString} (hsplit : p ++ (span ++ q) = pre ++ (num ++ post))
    (halone : Alone pre post) (hall : ∀ x ∈ span, JsString.isDigit x = true)
    (hstart : p.length ≤ pre.length) (hstop : pre.length + num.length ≤ p.length + span.length) :
    p = pre ∧ span = num := by
  obtain ⟨x, rfl⟩ : p <+: pre :=
    List.prefix_of_prefix_length_le ⟨span ++ q, hsplit⟩ ⟨num ++ post, rfl⟩ hstart
  rw [List.append_assoc] at hsplit
  replace hsplit := List.append_cancel_left hsplit
  rw [List.length_append] at hstop
  obtain ⟨y, hspan⟩ : x ++ num <+: span := by
    refine List.prefix_of_prefix_length_le ⟨post, ?_⟩ ⟨q, hsplit⟩ ?_
    · rw [List.append_assoc]
    · rw [List.length_append]
      omega
  rw [← hspan, List.append_assoc, List.append_assoc] at hsplit
  have hpost : y ++ q = post := List.append_cancel_left (List.append_cancel_left hsplit)
  have hx : x = [] := by
    by_contra hne
    have hlast : x.getLast hne ∈ (p ++ x).getLast? := by
      rw [List.getLast?_append_of_ne_nil p hne, List.getLast?_eq_some_getLast hne]
      rfl
    have hdigit : JsString.isDigit (x.getLast hne) = true := by
      refine hall _ ?_
      rw [← hspan, List.append_assoc]
      exact List.mem_append_left _ (List.getLast_mem hne)
    have hno := isDigit_of_digitOrDash (halone.before _ hlast)
    rw [hdigit] at hno
    cases hno
  have hy : y = [] := by
    cases y with
    | nil => rfl
    | cons c y =>
        have hhead : c ∈ post.head? := by
          rw [← hpost]
          rfl
        have hdigit : JsString.isDigit c = true := by
          refine hall _ ?_
          rw [← hspan]
          exact List.mem_append_right _ List.mem_cons_self
        have hno := isDigit_of_digitOrDash (halone.after _ hhead)
        rw [hdigit] at hno
        cases hno
  rw [hx, hy, List.append_nil] at hspan
  exact ⟨by rw [hx, List.append_nil], hspan.symm⟩

/-- A match that overlaps a run of digits standing alone covers it. -/
theorem Reported.covers {text pre num post p span q : JsString} {s : ScrubMatch}
    (h : Reported text s p span q) (hsplit : text = pre ++ (num ++ post))
    (hall : ∀ x ∈ num, JsString.isDigit x = true) (hstart : s.start < pre.length + num.length)
    (hstop : pre.length < s.stop) : s.start ≤ pre.length ∧ pre.length + num.length ≤ s.stop := by
  have hboth : p ++ (span ++ q) = pre ++ (num ++ post) := by rw [← h.split, hsplit]
  have hp := h.start
  have hq := h.stop
  constructor
  · by_contra hlt
    -- the match starts in the run, after one of its digits
    obtain ⟨x, rfl⟩ : pre <+: p :=
      List.prefix_of_prefix_length_le ⟨num ++ post, rfl⟩ ⟨span ++ q, hboth⟩ (by omega)
    rw [List.append_assoc] at hboth
    replace hboth := List.append_cancel_left hboth
    rw [List.length_append] at hp hq
    obtain ⟨y, hnum⟩ : x <+: num :=
      List.prefix_of_prefix_length_le ⟨span ++ q, hboth⟩ ⟨post, rfl⟩ (by omega)
    have hne : x ≠ [] := by
      intro hx
      rw [hx, List.length_nil] at hp
      omega
    have hlast : x.getLast hne ∈ (pre ++ x).getLast? := by
      rw [List.getLast?_append_of_ne_nil pre hne, List.getLast?_eq_some_getLast hne]
      rfl
    have hdigit : JsString.isDigit (x.getLast hne) = true := by
      refine hall _ ?_
      rw [← hnum]
      exact List.mem_append_left _ (List.getLast_mem hne)
    have hno := isDigit_of_digitOrDash (h.alone.before _ hlast)
    rw [hdigit] at hno
    cases hno
  · by_contra hlt
    -- the match ends in the run, before one of its digits
    have hassoc : (p ++ span) ++ q = (pre ++ num) ++ post := by
      rw [List.append_assoc, List.append_assoc, hboth]
    obtain ⟨y, hy⟩ : p ++ span <+: pre ++ num := by
      refine List.prefix_of_prefix_length_le ⟨q, hassoc⟩ ⟨post, rfl⟩ ?_
      rw [List.length_append, List.length_append]
      omega
    obtain ⟨x, hx⟩ : pre <+: p ++ span := by
      refine List.prefix_of_prefix_length_le ⟨num, rfl⟩ ⟨y, hy⟩ ?_
      rw [List.length_append]
      omega
    have hlengths := congrArg List.length hy
    simp only [List.length_append] at hlengths
    have hnum : num = x ++ y := by
      rw [← hx, List.append_assoc] at hy
      exact (List.append_cancel_left hy).symm
    have hq' : q = y ++ post := by
      have hassoc' : (p ++ span) ++ q = (p ++ span) ++ (y ++ post) := by
        rw [hassoc, ← hy, List.append_assoc]
      exact List.append_cancel_left hassoc'
    cases y with
    | nil =>
        rw [List.length_nil] at hlengths
        omega
    | cons c y =>
        have hhead : c ∈ q.head? := by
          rw [hq']
          rfl
        have hdigit : JsString.isDigit c = true := by
          refine hall _ ?_
          rw [hnum]
          exact List.mem_append_right _ List.mem_cons_self
        have hno := isDigit_of_digitOrDash (h.alone.after _ hhead)
        rw [hdigit] at hno
        cases hno

/-! ### Routing numbers -/

/-- A routing number that no card number read overlaps. -/
structure RoutingFound (text pre ds post : JsString) : Prop where
  split : text = pre ++ (ds ++ post)
  alone : Alone pre post
  digits : Digits 9 ds
  checksum : abaChecksumValid ds = true
  prefixed : abaPrefixValid ds = true
  free : ∀ p span q, CardFound text p span q →
    ¬(pre.length < p.length + span.length ∧ p.length < pre.length + 9)

theorem overlaps_scanCards {text : JsString} {start stop : ℕ} :
    overlaps (scanCards text) start stop = false ↔ ∀ p span q, CardFound text p span q →
      ¬(start < p.length + span.length ∧ p.length < stop) := by
  rw [Bool.eq_false_iff, Ne, overlaps_eq_true]
  constructor
  · intro h p span q hcard hboth
    exact h ⟨_, mem_scanCards.2 ⟨p, span, q, hcard, rfl⟩, hboth⟩
  · intro h hany
    obtain ⟨s, hs, hboth⟩ := hany
    obtain ⟨p, span, q, hcard, rfl⟩ := mem_scanCards.1 hs
    exact h p span q hcard hboth

/-- The routing numbers that account numbers are looked for around. -/
theorem mem_routingSpans {text : JsString} {start stop : ℕ} :
    (start, stop) ∈ routingSpans (scanEin text (scanSsn text (scanRouting text (scanCards text)))) ↔
      ∃ pre digits post, RoutingFound text pre digits post ∧ start = pre.length ∧
        stop = pre.length + 9 := by
  unfold routingSpans
  rw [List.mem_map]
  have hchain := matchAll_pairwise NINE_DIGITS text
  have hrouting : ∀ s : ScrubMatch, s.type = .routing →
      (s ∈ scanEin text (scanSsn text (scanRouting text (scanCards text))) ↔
        s ∈ scanRouting text (scanCards text)) := by
    intro s htype
    unfold scanEin scanSsn
    rw [mem_collect (matchAll_pairwise EIN text), mem_collect hchain,
      mem_collect (matchAll_pairwise SSN text)]
    constructor
    · intro h
      rcases h with ((h | ⟨m, -, -, -, rfl⟩) | ⟨m, -, -, -, rfl⟩) | ⟨m, -, -, -, rfl⟩
      · exact h
      all_goals cases htype
    · exact fun h => Or.inl (Or.inl (Or.inl h))
  have hcards : ∀ s ∈ scanCards text, s.type ≠ .routing := by
    intro s hs htype
    obtain ⟨p, span, q, -, rfl⟩ := mem_scanCards.1 hs
    cases htype
  constructor
  · intro h
    obtain ⟨s, hs, hspan⟩ := h
    obtain ⟨hs, htype⟩ := List.mem_filter.1 hs
    replace htype := of_decide_eq_true htype
    rw [hrouting s htype] at hs
    rcases (mem_collect hchain).1 hs with hs | ⟨m, hm, hvalid, hfree, rfl⟩
    · exact absurd htype (hcards s hs)
    · have hfound := found_of_mem_matchAll hm
      obtain ⟨n, hn, hn', hdigits⟩ := digits_shape (Nat.le_refl 9) hfound
      obtain rfl := Nat.le_antisymm hn' hn
      obtain ⟨pre, post, hsplit, hindex, halone⟩ := alone_of_found hfound
      unfold validRouting at hvalid
      obtain ⟨hchecksum, hprefix⟩ := Bool.and_eq_true_iff.1 hvalid
      obtain ⟨rfl, rfl⟩ := Prod.mk.inj hspan
      have hstop : m.stop = pre.length + 9 := by
        unfold Match.stop
        rw [hindex, hdigits.length]
      refine ⟨pre, m.text, post, ⟨hsplit, halone, hdigits, hchecksum, hprefix, ?_⟩, hindex, hstop⟩
      rw [hindex, hstop] at hfree
      exact overlaps_scanCards.1 hfree
  · intro h
    obtain ⟨pre, digits, post, hfound, rfl, rfl⟩ := h
    obtain ⟨m, hm, hindex, htext⟩ := found_digits hfound.alone hfound.digits (Nat.le_refl 9)
      (Nat.le_refl 9)
    rw [← hfound.split] at hm
    have hstop : m.stop = pre.length + 9 := by
      unfold Match.stop
      rw [hindex, htext, hfound.digits.length]
    refine ⟨⟨.routing, pre.length, pre.length + 9⟩, List.mem_filter.2 ⟨?_, rfl⟩, rfl⟩
    rw [hrouting _ rfl]
    refine (mem_collect hchain).2 (Or.inr ⟨m, hm, ?_, ?_, ?_⟩)
    · unfold validRouting
      rw [htext, hfound.checksum, hfound.prefixed]
      rfl
    · rw [hindex, hstop]
      exact overlaps_scanCards.2 hfound.free
    · rw [hindex, hstop]

/-! ### When a card number is covered -/

/-- 13 to 19 digits, grouped by single spaces or dashes, with a valid check digit and issuer. -/
structure CardNumber (num : JsString) : Prop where
  row : ∃ n, 13 ≤ n ∧ n ≤ 19 ∧ Row n num
  luhn : luhnValid (num.filter fun c => !spaceOrDash c) = true
  issuer : iinValid (num.filter fun c => !spaceOrDash c) = true

/-- A row read from left to right covers the number and is itself a card number. -/
def CardCovers (text pre num : JsString) : Prop :=
  ∃ p span q, CardFound text p span q ∧ p.length ≤ pre.length ∧
    pre.length + num.length ≤ p.length + span.length

/-- The number is taken for an account number: a plain run of digits, with a keyword in the 30
characters before it or a routing number within 120 characters. -/
structure AccountCovers (text pre num : JsString) : Prop where
  digits : ∃ n, n ≤ 17 ∧ Digits n num
  near : ACCOUNT_KEYWORD.test (pre.drop (pre.length - 30)) = true ∨
    ∃ p ds q, RoutingFound text p ds q ∧ (within 120 pre.length (p.length + 9) = true ∨
      within 120 p.length (pre.length + num.length) = true)

/-- The heuristic for account numbers, at a place. -/
theorem validAccount_iff {pre num : JsString} (post : JsString) {m : Match} (hindex : m.index = pre.length)
    (hstop : m.stop = pre.length + num.length) :
    validAccount (pre ++ (num ++ post)) (routingSpans (scanEin (pre ++ (num ++ post))
      (scanSsn (pre ++ (num ++ post)) (scanRouting (pre ++ (num ++ post))
        (scanCards (pre ++ (num ++ post))))))) m = true ↔
      (ACCOUNT_KEYWORD.test (pre.drop (pre.length - 30)) = true ∨
        ∃ p ds q, RoutingFound (pre ++ (num ++ post)) p ds q ∧
          (within 120 pre.length (p.length + 9) = true ∨
            within 120 p.length (pre.length + num.length) = true)) := by
  unfold validAccount
  rw [Bool.or_eq_true, List.any_eq_true, context_eq 30 hindex, hindex, hstop, or_comm]
  refine or_congr_right ?_
  constructor
  · intro h
    obtain ⟨⟨start, stop⟩, hspan, hnear⟩ := h
    obtain ⟨p, digits, q, hfound, rfl, rfl⟩ := mem_routingSpans.1 hspan
    exact ⟨p, digits, q, hfound, Bool.or_eq_true_iff.1 hnear⟩
  · intro h
    obtain ⟨p, digits, q, hfound, hnear⟩ := h
    exact ⟨(p.length, p.length + 9), mem_routingSpans.2 ⟨p, digits, q, hfound, rfl, rfl⟩,
      Bool.or_eq_true_iff.2 hnear⟩

theorem CardNumber.length {num : JsString} (h : CardNumber num) : 13 ≤ num.length := by
  obtain ⟨n, hn, -, hrow⟩ := h.row
  have hle := List.length_filter_le (fun c => !spaceOrDash c) num
  rw [row_digits hrow] at hle
  omega

/-- A match of the scan that covers the number. -/
theorem covered_of_found {text : JsString} {start stop : ℕ} {s : ScrubMatch} (hs : s ∈ found text)
    (hstart : s.start ≤ start) (hstop : stop ≤ s.stop) : Covered text start stop := by
  intro i hi hi'
  exact ⟨s, (scanText_perm text).mem_iff.2 hs, by omega, by omega⟩

/-- **Exactly when a card number that stands alone is covered.** -/
theorem card_covered_iff {pre num post : JsString} (halone : Alone pre post) (hcard : CardNumber num) :
    Covered (pre ++ (num ++ post)) pre.length (pre.length + num.length) ↔
      CardCovers (pre ++ (num ++ post)) pre num ∨ AccountCovers (pre ++ (num ++ post)) pre num := by
  have hlength := hcard.length
  constructor
  · intro h
    obtain ⟨s, hs, hstart, hstop⟩ := one_covers (by omega) h
    obtain ⟨p, span, q, hreported, hkind⟩ := reported hs
    rw [hreported.start] at hstart
    rw [hreported.stop] at hstop
    rcases hkind with hfound | hshort | ⟨⟨n, hn, hdigits⟩, m, hindex, hend, hvalid⟩
    · exact Or.inl ⟨p, span, q, hfound, hstart, hstop⟩
    · omega
    · obtain ⟨rfl, rfl⟩ := eq_of_covers hreported.split.symm halone hdigits.all hstart hstop
      exact Or.inr ⟨⟨n, hn, hdigits⟩, (validAccount_iff _ hindex hend).1 hvalid⟩
  · intro h
    rcases h with ⟨p, span, q, hfound, hstart, hstop⟩ | ⟨⟨n, hn, hdigits⟩, hnear⟩
    · have hs : (⟨.card, p.length, p.length + span.length⟩ : ScrubMatch) ∈
          found (pre ++ (num ++ post)) := by
        have hs := mem_scanCards.2 ⟨p, span, q, hfound, rfl⟩
        unfold found scanAccount scanEin scanSsn scanRouting
        simp only [mem_collect (matchAll_pairwise _ _)]
        exact Or.inl (Or.inl (Or.inl (Or.inl (Or.inl hs))))
      exact covered_of_found hs hstart hstop
    · have hn' : 6 ≤ n := by
        rw [← hdigits.length]
        omega
      obtain ⟨m, hm, hindex, htext⟩ := found_digits halone hdigits hn' hn
      have hstop : m.stop = pre.length + num.length := by
        unfold Match.stop
        rw [hindex, htext]
      have hvalid := (validAccount_iff post hindex hstop).2 hnear
      have hover : overlaps (found (pre ++ (num ++ post))) pre.length (pre.length + num.length) =
          true := overlaps_found hm hvalid hindex hstop (by omega)
      obtain ⟨s, hs, hbefore, hafter⟩ := overlaps_eq_true.1 hover
      obtain ⟨p, span, q, hreported, -⟩ := reported hs
      obtain ⟨hstart, hend⟩ := hreported.covers rfl hdigits.all hafter hbefore
      exact covered_of_found hs hstart hend

/-! ### A date after the number -/

namespace Sample

/-- `4111 1111 1111 1111` -/
def cardNumber : JsString :=
  [52, 49, 49, 49, 32, 49, 49, 49, 49, 32, 49, 49, 49, 49, 32, 49, 49, 49, 49]

/-- ` 12/27` -/
def date : JsString := [32, 49, 50, 47, 50, 55]

theorem cardNumber_valid : CardNumber cardNumber := by
  refine ⟨⟨16, by decide, by decide, ?_⟩, by decide, by decide⟩
  unfold cardNumber
  repeat first
    | exact .one rfl
    | refine .apart rfl rfl ?_
    | refine .next rfl ?_

theorem date_alone : Alone [] date := by
  constructor
  · intro x hx
    cases hx
  · intro x hx
    cases hx
    rfl

/-- The row read is `4111 1111 1111 1111 12`. -/
theorem scanText_dated : scanText (cardNumber ++ date) = [] := by decide

theorem dated_not_covered : ¬Covered ([] ++ (cardNumber ++ date)) 0 (0 + 19) := by
  intro h
  obtain ⟨m, hm, -⟩ := h 0 (by decide) (by decide)
  rw [List.nil_append, scanText_dated] at hm
  cases hm

end Sample

/-- **A card number is missed**, with a date after it. -/
theorem card_missed : ¬∀ pre num post, Alone pre post → CardNumber num →
    Covered (pre ++ (num ++ post)) pre.length (pre.length + num.length) := by
  intro h
  exact Sample.dated_not_covered (h [] _ _ Sample.date_alone Sample.cardNumber_valid)

/-- Neither of the two cases applies there. -/
theorem card_covered_dated :
    ¬(CardCovers ([] ++ (Sample.cardNumber ++ Sample.date)) [] Sample.cardNumber ∨
      AccountCovers ([] ++ (Sample.cardNumber ++ Sample.date)) [] Sample.cardNumber) := by
  intro h
  exact Sample.dated_not_covered ((card_covered_iff Sample.date_alone Sample.cardNumber_valid).2 h)

end VibeRouter
