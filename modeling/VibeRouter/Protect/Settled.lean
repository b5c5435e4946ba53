import VibeRouter.Protect.Parted

/-! # Redacting again

`scanText_ne_nil_iff` says when a scan finds something at all.  In a redacted text that can only be
what the redaction has brought about (`Exposed`): a card number that was read together with a match,
or a run of digits that now stands close enough to a keyword, which may be a placeholder.  So a
redacted text has no matches exactly when nothing was exposed (`redaction_settles`). -/

namespace VibeRouter

open Regex

/-! ### What a scan sees -/

/-- The last `n` characters. -/
def lastOf (n : ℕ) (s : JsString) : JsString := s.drop (s.length - n)

/-- What makes a scan find something: a card number, a number that is an identifier by itself, or a
run of digits with a keyword before it. -/
inductive Seen (text : JsString) : Prop
  | card (h : HasCard text)
  | number {pre span post : JsString} (split : text = pre ++ (span ++ post)) (alone : Alone pre post)
      (h : ∀ p, Identifies p span)
  | ssn {pre num post : JsString} (split : text = pre ++ (num ++ post)) (alone : Alone pre post)
      (digits : Digits 9 num)
      (valid : validSsnParts (num.slice 0 3) (num.slice 3 5) (num.drop 5) = true)
      (keyword : SSN_KEYWORD.test (lastOf 40 pre) = true)
  | account {pre num post : JsString} {n : ℕ} (split : text = pre ++ (num ++ post))
      (alone : Alone pre post) (digits : Digits n num) (least : 6 ≤ n) (most : n ≤ 17)
      (keyword : ACCOUNT_KEYWORD.test (lastOf 30 pre) = true)

/-- The place of a match that stands alone. -/
theorem exec_of_found {rs : List Regex} {text : JsString} {m : Match}
    (h : Found (standalone rs) text m) :
    ∃ pre c, text = pre ++ (m.text ++ c.rest) ∧ m.index = pre.length ∧ Alone pre c.rest ∧
      m.groups = c.groups ∧ (standalone rs).exec pre.reverse (m.text ++ c.rest) = some c := by
  obtain ⟨pre, post, hsplit, hindex, halone⟩ := alone_of_found h
  obtain ⟨pre', c, hsplit', hindex', hgroups, hexec⟩ := h
  rw [hsplit, List.append_assoc] at hsplit'
  obtain ⟨rfl, hrest⟩ := List.append_inj hsplit' (hindex.symm.trans hindex')
  obtain rfl := List.append_cancel_left hrest
  exact ⟨pre, c, hsplit, hindex, halone, hgroups, hexec⟩

theorem identifies_of_ssn {text : JsString} {m : Match} (h : Found SSN text m)
    (hvalid : validSsn m = true) (p : JsString) : Identifies p m.text := by
  obtain ⟨area, grp, serial, sep, hshape, harea, hgroup, hserial, hsep⟩ := ssn_shape h
  obtain ⟨pre, c, -, -, halone, hgroups, hexec⟩ := exec_of_found h
  obtain ⟨c', hexec', -, hone, hthree, hfour⟩ := exec_ssn halone harea hgroup hserial hsep
  have hrest : m.text ++ c.rest = area ++ (sep :: (grp ++ (sep :: (serial ++ c.rest)))) := by
    rw [hshape]
    simp
  rw [hrest] at hexec
  obtain rfl : c = c' := Option.some.inj (hexec.symm.trans hexec')
  unfold validSsn captured at hvalid
  rw [hgroups, hone, hthree, hfour] at hvalid
  rw [hshape]
  exact .ssn harea hgroup hserial hsep hvalid

theorem identifies_of_ein {text : JsString} {m : Match} (h : Found EIN text m)
    (hvalid : validEin m = true) (p : JsString) : Identifies p m.text := by
  obtain ⟨campus, serial, hshape, hcampus, hserial⟩ := ein_shape h
  obtain ⟨pre, c, -, -, halone, hgroups, hexec⟩ := exec_of_found h
  obtain ⟨c', hexec', -, hone⟩ := exec_ein halone hcampus hserial
  have hrest : m.text ++ c.rest = campus ++ (45 :: serial ++ c.rest) := by
    rw [hshape]
    simp
  rw [hrest] at hexec
  obtain rfl : c = c' := Option.some.inj (hexec.symm.trans hexec')
  unfold validEin captured at hvalid
  rw [hgroups, hone] at hvalid
  rw [hshape]
  exact .ein hcampus hserial hvalid

/-- A run of digits that is found, at its place. -/
theorem digits_of_found {least most : ℕ} (hbounds : least ≤ most) {text : JsString} {m : Match}
    (h : m ∈ (standalone [digit.upTo least most]).matchAll text) :
    ∃ pre post n, text = pre ++ (m.text ++ post) ∧ m.index = pre.length ∧ Alone pre post ∧
      least ≤ n ∧ n ≤ most ∧ Digits n m.text := by
  have hfound := found_of_mem_matchAll h
  obtain ⟨n, hleast, hmost, hdigits⟩ := digits_shape hbounds hfound
  obtain ⟨pre, post, hsplit, hindex, halone⟩ := alone_of_found hfound
  exact ⟨pre, post, n, hsplit, hindex, halone, hleast, hmost, hdigits⟩

theorem seen_of_routing {text pre ds post : JsString} (h : RoutingFound text pre ds post) :
    Seen text :=
  .number h.split h.alone fun _ => .routing h.digits h.checksum h.prefixed

/-- What is found was seen. -/
theorem seen_of_found {text : JsString} {s : ScrubMatch} (h : s ∈ found text) : Seen text := by
  have hnine := matchAll_pairwise NINE_DIGITS text
  unfold found scanAccount at h
  rcases (mem_collect (matchAll_pairwise ACCOUNT_DIGITS text)).1 h with h | ⟨m, hm, hvalid, -, -⟩
  · unfold scanEin at h
    rcases (mem_collect (matchAll_pairwise EIN text)).1 h with h | ⟨m, hm, hvalid, -, -⟩
    · unfold scanSsn at h
      rcases (mem_collect hnine).1 h with h | ⟨m, hm, hvalid, -, -⟩
      · rcases (mem_collect (matchAll_pairwise SSN text)).1 h with h | ⟨m, hm, hvalid, -, -⟩
        · rcases (mem_collect hnine).1 h with h | ⟨m, hm, hvalid, -, -⟩
          · obtain ⟨pre, span, post, hcard, -⟩ := mem_scanCards.1 h
            exact .card ⟨pre, span, post, hcard⟩
          · obtain ⟨pre, post, n, hsplit, -, halone, hleast, hmost, hdigits⟩ :=
              digits_of_found (Nat.le_refl 9) hm
            obtain rfl := Nat.le_antisymm hmost hleast
            obtain ⟨hchecksum, hprefixed⟩ := Bool.and_eq_true_iff.1 hvalid
            exact .number hsplit halone fun _ => .routing hdigits hchecksum hprefixed
        · have hfound := found_of_mem_matchAll hm
          obtain ⟨pre, post, hsplit, -, halone⟩ := alone_of_found hfound
          exact .number hsplit halone (identifies_of_ssn hfound hvalid)
      · obtain ⟨pre, post, n, hsplit, hindex, halone, hleast, hmost, hdigits⟩ :=
          digits_of_found (Nat.le_refl 9) hm
        obtain rfl := Nat.le_antisymm hmost hleast
        unfold validBareSsn at hvalid
        obtain ⟨hkeyword, hparts⟩ := Bool.and_eq_true_iff.1 hvalid
        rw [hsplit, context_eq 40 hindex] at hkeyword
        exact .ssn hsplit halone hdigits hparts hkeyword
    · have hfound := found_of_mem_matchAll hm
      obtain ⟨pre, post, hsplit, -, halone⟩ := alone_of_found hfound
      exact .number hsplit halone (identifies_of_ein hfound hvalid)
  · obtain ⟨pre, post, n, hsplit, hindex, halone, hleast, hmost, hdigits⟩ :=
      digits_of_found (by decide : 6 ≤ 17) hm
    have hstop : m.stop = pre.length + m.text.length := by
      unfold Match.stop
      rw [hindex]
    rw [hsplit] at hvalid
    rcases (validAccount_iff post hindex hstop).1 hvalid with hkeyword | ⟨p, ds, q, hrouting, -⟩
    · exact .account hsplit halone hdigits hleast hmost hkeyword
    · rw [← hsplit] at hrouting
      exact seen_of_routing hrouting

theorem scanText_ne_nil_of_overlaps {text : JsString} {start stop : ℕ}
    (h : overlaps (found text) start stop = true) : scanText text ≠ [] := by
  obtain ⟨m, hm, -⟩ := intersects_of_overlaps h
  exact List.ne_nil_of_mem hm

/-- What is seen is found. -/
theorem Seen.scanText_ne_nil {text : JsString} (h : Seen text) : scanText text ≠ [] := by
  cases h with
  | card h =>
      obtain ⟨pre, span, post, hcard⟩ := h
      have hmem := mem_scanCards.2 ⟨pre, span, post, hcard, rfl⟩
      have hpos := List.length_pos_iff.2 hcard.longest.toCardShape.ne_nil
      have hlt : pre.length < pre.length + span.length := by omega
      have hoverlaps : overlaps (scanCards text) pre.length (pre.length + span.length) = true :=
        overlaps_eq_true.2 ⟨_, hmem, hlt, hlt⟩
      exact scanText_ne_nil_of_overlaps (overlaps_collect (overlaps_collect (overlaps_collect
        (overlaps_collect (overlaps_collect hoverlaps)))))
  | number split alone h =>
      obtain ⟨m, hm, -⟩ := identifier_intersects alone (h _)
      rw [split]
      exact List.ne_nil_of_mem hm
  | @ssn pre num post split alone digits valid keyword =>
      obtain ⟨m, hm, hindex, htext⟩ := found_digits alone digits (Nat.le_refl 9) (Nat.le_refl 9)
      rw [← split] at hm
      have hvalid : validBareSsn text m = true := by
        unfold validBareSsn
        rw [htext, valid, split, context_eq 40 hindex, Bool.and_true]
        exact keyword
      have hstop : m.stop = pre.length + num.length := by
        unfold Match.stop
        rw [hindex, htext]
      refine scanText_ne_nil_of_overlaps (overlaps_collect (overlaps_collect
        (overlaps_found hm hvalid hindex hstop ?_)))
      rw [digits.length]
      omega
  | @account pre num post n split alone digits least most keyword =>
      obtain ⟨m, hm, hindex, htext⟩ := found_digits alone digits least most
      rw [← split] at hm
      have hstop : m.stop = pre.length + num.length := by
        unfold Match.stop
        rw [hindex, htext]
      have hvalid : validAccount text (routingSpans (scanEin text (scanSsn text (scanRouting text
          (scanCards text))))) m = true := by
        rw [split]
        exact (validAccount_iff post hindex hstop).2 (Or.inl keyword)
      refine scanText_ne_nil_of_overlaps (overlaps_found hm hvalid hindex hstop ?_)
      rw [digits.length]
      omega

/-- **When a scan finds something.** -/
theorem scanText_ne_nil_iff {text : JsString} : scanText text ≠ [] ↔ Seen text := by
  constructor
  · intro h
    obtain ⟨s, ss, hs⟩ := List.exists_cons_of_ne_nil h
    exact seen_of_found ((scanText_perm text).mem_iff.1 (hs ▸ List.mem_cons_self))
  · exact Seen.scanText_ne_nil

/-! ### Places in a redacted text -/

/-- A number as the scan reads it: digits, spaces and dashes, with a digit at either end. -/
structure Numeral (num : JsString) : Prop where
  all : ∀ x ∈ num, ¬Parts x
  head : ∃ x ∈ num.head?, digitOrDash x = true
  last : ∃ x ∈ num.getLast?, digitOrDash x = true

theorem Numeral.ne_nil {num : JsString} (h : Numeral num) : num ≠ [] := by
  obtain ⟨x, hx, -⟩ := h.head
  intro hnil
  rw [hnil] at hx
  cases hx

theorem not_parts_of_isDigit {x : ℕ} (h : JsString.isDigit x = true) : ¬Parts x := by
  intro hx
  have := hx.digitOrDash
  rw [digitOrDash_of_isDigit h] at this
  cases this

theorem Digits.numeral {n : ℕ} {ds : JsString} (h : Digits n ds) (hn : 0 < n) : Numeral ds := by
  have hne : ds ≠ [] := by
    intro hnil
    have := h.length
    rw [hnil, List.length_nil] at this
    omega
  refine ⟨fun x hx => not_parts_of_isDigit (h.all x hx), ?_, ?_⟩
  · exact ⟨ds.head hne, List.head?_eq_some_head hne, digitOrDash_of_isDigit (h.all _ (List.head_mem hne))⟩
  · exact ⟨ds.getLast hne, List.getLast?_eq_some_getLast hne,
      digitOrDash_of_isDigit (h.all _ (List.getLast_mem hne))⟩

theorem Numeral.join {a b : JsString} {sep : ℕ} (ha : Numeral a) (hsep : ¬Parts sep) (hb : Numeral b) :
    Numeral (a ++ sep :: b) := by
  refine ⟨fun x hx => ?_, ?_, ?_⟩
  · rcases List.mem_append.1 hx with hx | hx
    · exact ha.all x hx
    rcases List.mem_cons.1 hx with rfl | hx
    · exact hsep
    · exact hb.all x hx
  · obtain ⟨x, hx, hdigit⟩ := ha.head
    refine ⟨x, ?_, hdigit⟩
    rw [List.head?_append_of_ne_nil _ ha.ne_nil]
    exact hx
  · obtain ⟨x, hx, hdigit⟩ := hb.last
    refine ⟨x, ?_, hdigit⟩
    rw [List.getLast?_append_of_ne_nil _ (List.cons_ne_nil sep b)]
    obtain ⟨y, b', rfl⟩ := List.exists_cons_of_ne_nil hb.ne_nil
    rwa [List.getLast?_cons_cons]

theorem Identifies.numeral {p span : JsString} (h : Identifies p span) : Numeral span := by
  cases h with
  | ssn harea hgroup hserial hsep valid =>
      have hsep' : ∀ {x}, spaceOrDash x = true → ¬Parts x := by
        intro x hx hparts
        rw [hparts.spaceOrDash] at hx
        cases hx
      exact (harea.numeral (by decide)).join (hsep' hsep)
        ((hgroup.numeral (by decide)).join (hsep' hsep) (hserial.numeral (by decide)))
  | ein hcampus hserial valid =>
      refine (hcampus.numeral (by decide)).join (fun hparts => ?_) (hserial.numeral (by decide))
      cases hparts.digitOrDash
  | routing hdigits checksum prefixed => exact hdigits.numeral (by decide)
  | bareSsn hdigits valid window keyword => exact hdigits.numeral (by decide)

/-- The characters of a placeholder part a text. -/
theorem parts_redaction (type : MatchType) : ∀ x ∈ REDACTION type, Parts x := by
  have hall : ∀ x ∈ REDACTION type, digitOrDash x = false ∧ spaceOrDash x = false := by
    cases type <;> decide
  exact fun x hx => ⟨(hall x hx).1, (hall x hx).2⟩

theorem redaction_ne_nil (type : MatchType) : REDACTION type ≠ [] := by
  cases type <;> decide

/-- A text that shares no character with a part lies before or after it. -/
theorem split_around {a w b pre num post : JsString} (h : a ++ (w ++ b) = pre ++ (num ++ post))
    (hnum : num ≠ []) (hw : w ≠ []) (hapart : ∀ x ∈ w, x ∉ num) :
    (∃ k, a = pre ++ (num ++ k) ∧ post = k ++ (w ++ b)) ∨
      ∃ k, pre = a ++ (w ++ k) ∧ b = k ++ (num ++ post) := by
  have hheads : ∀ {u v s t : JsString}, u ++ s = v ++ t → (∀ x ∈ u, x ∉ v) → u = [] ∨ v = [] := by
    intro u v s t heq hnot
    cases u with
    | nil => exact Or.inl rfl
    | cons x u =>
        cases v with
        | nil => exact Or.inr rfl
        | cons y v =>
            obtain ⟨rfl, -⟩ := List.cons.inj heq
            exact absurd List.mem_cons_self (hnot x List.mem_cons_self)
  rcases List.append_eq_append_iff.1 h with ⟨k, rfl, hrest⟩ | ⟨k, rfl, hrest⟩
  · rcases List.append_eq_append_iff.1 hrest with ⟨k', rfl, hb⟩ | ⟨k', rfl, hnum'⟩
    · exact Or.inr ⟨k', rfl, hb⟩
    · rcases hheads hnum'.symm (fun x hx => hapart x (List.mem_append_right _ hx)) with rfl | hnil
      · exact Or.inr ⟨[], by simp, hnum'.symm⟩
      · exact absurd hnil hnum
  · rcases List.append_eq_append_iff.1 hrest with ⟨k', rfl, hpost⟩ | ⟨k', hcut, hw'⟩
    · exact Or.inl ⟨k', rfl, hpost⟩
    · rcases hheads hw' (fun x hx hx' => hapart x hx (hcut ▸ List.mem_append_right _ hx')) with
        hnil | rfl
      · exact absurd hnil hw
      · rw [List.append_nil] at hcut
        exact Or.inl ⟨[], by rw [hcut, List.append_nil], hw'.symm⟩

/-- A text that stands at a place outside the matches, before and after redaction. -/
def Stands (place : ℕ) (ms : List ScrubMatch) (pre num post pre' post' : JsString) : Prop :=
  ∃ ms₁ ms₂, ms = ms₁ ++ ms₂ ∧ Replaced place pre ms₁ pre' ∧
    Replaced (place + pre.length + num.length) post ms₂ post'

/-- Before the first match. -/
theorem stands_first {place : ℕ} {kept span rest out pre num k : JsString} {m : ScrubMatch}
    {ms : List ScrubMatch} (hkept : kept = pre ++ (num ++ k)) (hstart : place + kept.length = m.start)
    (hstop : m.start + span.length = m.stop) (hmore : Replaced m.stop rest ms out) :
    Stands place (m :: ms) pre num (k ++ (span ++ rest)) pre (k ++ (REDACTION m.type ++ out)) := by
  refine ⟨[], m :: ms, rfl, .done place pre, .next ?_ hstop hmore⟩
  rw [hkept, List.length_append, List.length_append] at hstart
  omega

/-- After the first match. -/
theorem Stands.next {place : ℕ} {kept span pre num post pre' post' : JsString} {m : ScrubMatch}
    {ms : List ScrubMatch} (hstart : place + kept.length = m.start)
    (hstop : m.start + span.length = m.stop) (h : Stands m.stop ms pre num post pre' post') :
    Stands place (m :: ms) (kept ++ (span ++ pre)) num post (kept ++ (REDACTION m.type ++ pre'))
      post' := by
  obtain ⟨ms₁, ms₂, rfl, hpre, hpost⟩ := h
  refine ⟨m :: ms₁, ms₂, rfl, .next hstart hstop hpre, ?_⟩
  have hplace : place + (kept ++ (span ++ pre)).length + num.length =
      m.stop + pre.length + num.length := by
    rw [List.length_append, List.length_append]
    omega
  rwa [hplace]

/-- A number in the redacted text stands in the text. -/
theorem Replaced.stands_back {place : ℕ} {rest out : JsString} {ms : List ScrubMatch}
    (h : Replaced place rest ms out) {pre' num post' : JsString} (hout : out = pre' ++ (num ++ post'))
    (hnum : Numeral num) :
    ∃ pre post, rest = pre ++ (num ++ post) ∧ Stands place ms pre num post pre' post' := by
  induction h generalizing pre' with
  | done place rest => exact ⟨pre', post', hout, [], [], rfl, .done _ _, .done _ _⟩
  | @next place kept span rest out m ms hstart hstop hmore ih =>
      have hapart : ∀ x ∈ REDACTION m.type, x ∉ num := fun x hx hx' =>
        hnum.all x hx' (parts_redaction m.type x hx)
      rcases split_around hout hnum.ne_nil (redaction_ne_nil m.type) hapart with
        ⟨k, hkept, rfl⟩ | ⟨k, rfl, hout'⟩
      · refine ⟨pre', k ++ (span ++ rest), ?_, stands_first hkept hstart hstop hmore⟩
        rw [hkept]
        simp
      · obtain ⟨pre, post, rfl, hstands⟩ := ih hout'
        exact ⟨kept ++ (span ++ pre), post, by simp, hstands.next hstart hstop⟩

/-- A text outside the matches stands in the redacted text. -/
theorem Replaced.stands {place : ℕ} {rest out : JsString} {ms : List ScrubMatch}
    (h : Replaced place rest ms out) {pre num post : JsString} (hrest : rest = pre ++ (num ++ post))
    (hfree : ∀ m ∈ ms, m.stop ≤ place + pre.length ∨ place + pre.length + num.length ≤ m.start) :
    ∃ pre' post', out = pre' ++ (num ++ post') ∧ Stands place ms pre num post pre' post' := by
  induction h generalizing pre with
  | done place rest => exact ⟨pre, post, hrest, [], [], rfl, .done _ _, .done _ _⟩
  | @next place kept span rest out m ms hstart hstop hmore ih =>
      rcases hfree m List.mem_cons_self with hbefore | hafter
      · rw [← List.append_assoc] at hrest
        have hlength : (kept ++ span).length ≤ pre.length := by
          rw [List.length_append]
          omega
        obtain ⟨pre₀, rfl⟩ := List.prefix_of_prefix_length_le ⟨rest, rfl⟩ ⟨num ++ post, hrest.symm⟩
          hlength
        have hrest' := List.append_cancel_left (hrest.trans (List.append_assoc ..))
        have hplace : place + (kept ++ span ++ pre₀).length = m.stop + pre₀.length := by
          rw [List.length_append, List.length_append]
          omega
        obtain ⟨pre', post', rfl, hstands⟩ := ih hrest' fun m' hm' => by
          have hcase := hfree m' (List.mem_cons_of_mem _ hm')
          rwa [hplace] at hcase
        refine ⟨kept ++ (REDACTION m.type ++ pre'), post', by simp, ?_⟩
        rw [List.append_assoc]
        exact hstands.next hstart hstop
      · rw [← List.append_assoc pre] at hrest
        have hlength : (pre ++ num).length ≤ kept.length := by
          rw [List.length_append]
          omega
        obtain ⟨k, rfl⟩ := List.prefix_of_prefix_length_le ⟨post, hrest.symm⟩ ⟨span ++ rest, rfl⟩
          hlength
        rw [List.append_assoc (pre ++ num)] at hrest
        obtain rfl := List.append_cancel_left hrest
        exact ⟨pre, k ++ (REDACTION m.type ++ out), by simp,
          stands_first (List.append_assoc ..) hstart hstop hmore⟩

/-! ### The neighbours of a place -/

theorem Replaced.bounds {place : ℕ} {rest out : JsString} {ms : List ScrubMatch}
    (h : Replaced place rest ms out) : ∀ m ∈ ms, place ≤ m.start ∧ m.stop ≤ place + rest.length := by
  induction h with
  | done => exact fun m hm => absurd hm List.not_mem_nil
  | @next place kept span rest out m ms hstart hstop hmore ih =>
      intro m' hm'
      rw [List.length_append, List.length_append]
      rcases List.mem_cons.1 hm' with rfl | hm'
      · omega
      · have := ih m' hm'
        omega

/-- The last character before a place is the same, or a placeholder's. -/
theorem Replaced.getLast? {place : ℕ} {rest out : JsString} {ms : List ScrubMatch}
    (h : Replaced place rest ms out) :
    out.getLast? = rest.getLast? ∨
      (∃ m ∈ ms, m.stop = place + rest.length) ∧ ∃ x, out.getLast? = some x ∧ Parts x := by
  induction h with
  | done => exact Or.inl rfl
  | @next place kept span rest out m ms hstart hstop hmore ih =>
      have hlast : ∀ {u v : JsString}, v ≠ [] → (u ++ v).getLast? = v.getLast? := fun hv =>
        List.getLast?_append_of_ne_nil _ hv
      have hplace : place + (kept ++ (span ++ rest)).length = m.stop + rest.length := by
        rw [List.length_append, List.length_append]
        omega
      rw [hplace]
      cases out with
      | nil =>
          obtain ⟨rfl, rfl⟩ : rest = [] ∧ ms = [] := by
            generalize hout : ([] : JsString) = out at hmore
            cases hmore with
            | done => exact ⟨rfl, rfl⟩
            | @next _ _ _ _ _ m' _ =>
                have hnil := (List.append_eq_nil_iff.1 (List.append_eq_nil_iff.1 hout.symm).2).1
                exact absurd hnil (redaction_ne_nil m'.type)
          have hne := redaction_ne_nil m.type
          refine Or.inr ⟨⟨m, List.mem_cons_self, rfl⟩, (REDACTION m.type).getLast hne, ?_, ?_⟩
          · rw [List.append_nil, hlast hne, List.getLast?_eq_some_getLast hne]
          · exact parts_redaction m.type _ (List.getLast_mem hne)
      | cons y out =>
          have hne : REDACTION m.type ++ y :: out ≠ [] := by simp
          rw [hlast hne, hlast (List.cons_ne_nil y out)]
          rcases ih with hsame | ⟨⟨m', hm', hstop'⟩, hparts⟩
          · have hrest : rest ≠ [] := by
              intro hnil
              rw [hnil, List.getLast?_cons] at hsame
              cases hsame
            rw [hlast (by simp [hrest]), hlast hrest]
            exact Or.inl hsame
          · exact Or.inr ⟨⟨m', List.mem_cons_of_mem _ hm', hstop'⟩, hparts⟩

/-- The first character after a place is the same, or a placeholder's. -/
theorem Replaced.head? {place : ℕ} {rest out : JsString} {ms : List ScrubMatch}
    (h : Replaced place rest ms out) :
    out.head? = rest.head? ∨
      (∃ m ∈ ms, m.start = place) ∧ ∃ x, out.head? = some x ∧ Parts x := by
  cases h with
  | done => exact Or.inl rfl
  | @next _ kept span rest out m ms hstart hstop hmore =>
      cases kept with
      | cons y kept => exact Or.inl rfl
      | nil =>
          have hne := redaction_ne_nil m.type
          refine Or.inr ⟨⟨m, List.mem_cons_self, hstart.symm⟩, (REDACTION m.type).head hne, ?_, ?_⟩
          · rw [List.nil_append, List.head?_append_of_ne_nil _ hne, List.head?_eq_some_head hne]
          · exact parts_redaction m.type _ (List.head_mem hne)

/-- No number touches a match. -/
theorem not_adjacent {text pre num post : JsString} (hsplit : text = pre ++ (num ++ post))
    (hnum : Numeral num) {m : ScrubMatch} (hm : m ∈ scanText text) :
    m.stop ≠ pre.length ∧ m.start ≠ pre.length + num.length := by
  obtain ⟨p, span, q, hreported, -⟩ := reported ((scanText_perm text).mem_iff.1 hm)
  constructor
  · intro hstop
    have htexts : (p ++ span) ++ q = pre ++ (num ++ post) := by
      rw [List.append_assoc, ← hreported.split, hsplit]
    have hlength : (p ++ span).length = pre.length := by
      rw [List.length_append, ← hreported.stop, hstop]
    obtain ⟨-, rfl⟩ := List.append_inj htexts hlength
    obtain ⟨x, hx, hdigit⟩ := hnum.head
    have hafter := hreported.alone.after x (by rwa [List.head?_append_of_ne_nil _ hnum.ne_nil])
    rw [hdigit] at hafter
    cases hafter
  · intro hstart
    have htexts : p ++ (span ++ q) = (pre ++ num) ++ post := by
      rw [List.append_assoc, ← hreported.split, hsplit]
    have hlength : p.length = (pre ++ num).length := by
      rw [List.length_append, ← hreported.start, hstart]
    obtain ⟨rfl, -⟩ := List.append_inj htexts hlength
    obtain ⟨x, hx, hdigit⟩ := hnum.last
    have hbefore := hreported.alone.before x (by rwa [List.getLast?_append_of_ne_nil _ hnum.ne_nil])
    rw [hdigit] at hbefore
    cases hbefore

section
variable {text pre num post pre' post' : JsString}

/-- A number stands alone before redaction exactly when it does so after it. -/
theorem Stands.alone_iff (h : Stands 0 (scanText text) pre num post pre' post')
    (hsplit : text = pre ++ (num ++ post)) (hnum : Numeral num) :
    Alone pre post ↔ Alone pre' post' := by
  obtain ⟨ms₁, ms₂, hms, hpre, hpost⟩ := h
  have hbefore : pre'.getLast? = pre.getLast? := by
    rcases hpre.getLast? with hsame | ⟨⟨m, hm, hstop⟩, -⟩
    · exact hsame
    · rw [Nat.zero_add] at hstop
      exact absurd hstop (not_adjacent hsplit hnum (hms ▸ List.mem_append_left _ hm)).1
  have hafter : post'.head? = post.head? := by
    rcases hpost.head? with hsame | ⟨⟨m, hm, hstart⟩, -⟩
    · exact hsame
    · rw [Nat.zero_add] at hstart
      exact absurd hstart (not_adjacent hsplit hnum (hms ▸ List.mem_append_right _ hm)).2
  constructor
  · exact fun h => ⟨by rw [hbefore]; exact h.before, by rw [hafter]; exact h.after⟩
  · exact fun h => ⟨by rw [← hbefore]; exact h.before, by rw [← hafter]; exact h.after⟩

theorem Stands.free (h : Stands 0 (scanText text) pre num post pre' post') :
    overlaps (scanText text) pre.length (pre.length + num.length) = false := by
  obtain ⟨ms₁, ms₂, hms, hpre, hpost⟩ := h
  rw [Bool.eq_false_iff, Ne, overlaps_eq_true]
  intro hoverlaps
  obtain ⟨m, hm, hstart, hstop⟩ := hoverlaps
  rw [hms] at hm
  rcases List.mem_append.1 hm with hm | hm
  · have := hpre.bounds m hm
    omega
  · have := hpost.bounds m hm
    omega

theorem free_apart (h : overlaps (scanText text) pre.length (pre.length + num.length) = false) :
    ∀ m ∈ scanText text, m.stop ≤ 0 + pre.length ∨ 0 + pre.length + num.length ≤ m.start := by
  intro m hm
  by_contra hnot
  have htrue : overlaps (scanText text) pre.length (pre.length + num.length) = true :=
    overlaps_eq_true.2 ⟨m, hm, by omega, by omega⟩
  rw [h] at htrue
  cases htrue

theorem Replaced.unique {place : ℕ} {rest out out' : JsString} {ms : List ScrubMatch}
    (h : Replaced place rest ms out) (h' : Replaced place rest ms out') : out = out' := by
  induction h generalizing out' with
  | done place rest =>
      cases h'
      rfl
  | @next place kept span rest out m ms hstart hstop hmore ih =>
      generalize hwhole : kept ++ (span ++ rest) = whole at h'
      cases h' with
      | @next _ kept' span' rest' out' _ _ hstart' hstop' hmore' =>
          obtain ⟨rfl, hspan⟩ := List.append_inj hwhole (by omega)
          obtain ⟨rfl, rfl⟩ := List.append_inj hspan (by omega)
          rw [ih hmore']

/-- What the redacted text has before the place `i`. -/
def shownBefore (text : JsString) (i : ℕ) : JsString :=
  redactText (text.take i) ((scanText text).filter fun m => m.stop ≤ i)

theorem Stands.shownBefore (h : Stands 0 (scanText text) pre num post pre' post')
    (hsplit : text = pre ++ (num ++ post)) : shownBefore text pre.length = pre' := by
  obtain ⟨ms₁, ms₂, hms, hpre, hpost⟩ := h
  have htake : text.take pre.length = pre := by rw [hsplit, List.take_left]
  have hinBounds := (Spans.scanText text).inBounds
  have hfilter : ((scanText text).filter fun m => m.stop ≤ pre.length) = ms₁ := by
    rw [hms, List.filter_append]
    have hfirst : (ms₁.filter fun m => m.stop ≤ pre.length) = ms₁ := by
      refine List.filter_eq_self.2 fun m hm => decide_eq_true ?_
      have := hpre.bounds m hm
      omega
    have hsecond : (ms₂.filter fun m => m.stop ≤ pre.length) = [] := by
      refine List.filter_eq_nil_iff.2 fun m hm => ?_
      have hstart := (hpost.bounds m hm).1
      have hstop := (hinBounds m (hms ▸ List.mem_append_right _ hm)).1
      rw [decide_eq_true_eq]
      omega
    rw [hfirst, hsecond, List.append_nil]
  have hahead : Ahead pre 0 ms₁ := by
    refine ⟨fun m _ => Nat.zero_le _, fun m hm => ?_, ?_⟩
    · have hstop := (hpre.bounds m hm).2
      exact ⟨(hinBounds m (hms ▸ List.mem_append_left _ hm)).1, by omega⟩
    · have hchain := scanText_chain text
      rw [hms] at hchain
      exact (List.pairwise_append.1 hchain).1
  unfold VibeRouter.shownBefore redactText
  rw [htake, hfilter]
  exact (redactFrom_replaced hahead (Nat.zero_le _)).unique hpre

end

/-! ### What redaction exposes -/

/-- The texts between the matches, from a place on. -/
def keptFrom (text : JsString) : ℕ → List ScrubMatch → List JsString
  | place, [] => [text.drop place]
  | place, m :: ms => text.slice place m.start :: keptFrom text m.stop ms

/-- The texts between the matches of a scan. -/
def kept (text : JsString) : List JsString := keptFrom text 0 (scanText text)

theorem hasCard_redactFrom {text : JsString} {place : ℕ} {ms : List ScrubMatch}
    (h : Ahead text place ms) :
    HasCard (redactFrom text place ms) ↔ ∃ piece ∈ keptFrom text place ms, HasCard piece := by
  induction ms generalizing place with
  | nil => simp [redactFrom, keptFrom]
  | cons m ms ih =>
      have hstart := h.start m List.mem_cons_self
      rw [redactFrom, if_neg (by omega), List.append_assoc,
        hasCard_around (parts_redaction m.type) (redaction_ne_nil m.type), ih h.tail]
      simp [keptFrom]

/-- A number outside the matches that stands alone. -/
structure LeftInPlace (text pre num post : JsString) : Prop where
  split : text = pre ++ (num ++ post)
  alone : Alone pre post
  free : overlaps (scanText text) pre.length (pre.length + num.length) = false

/-- What a redaction exposes: a card number in the text between two matches, or a run of digits
between them that has a keyword or a placeholder before it. -/
inductive Exposed (text : JsString) : Prop
  | card {piece : JsString} (mem : piece ∈ kept text) (h : HasCard piece)
  | ssn {pre num post : JsString} (left : LeftInPlace text pre num post) (digits : Digits 9 num)
      (valid : validSsnParts (num.slice 0 3) (num.slice 3 5) (num.drop 5) = true)
      (keyword : SSN_KEYWORD.test (lastOf 40 (shownBefore text pre.length)) = true)
  | account {pre num post : JsString} {n : ℕ} (left : LeftInPlace text pre num post)
      (digits : Digits n num) (least : 6 ≤ n) (most : n ≤ 17)
      (keyword : ACCOUNT_KEYWORD.test (lastOf 30 (shownBefore text pre.length)) = true)

section
variable {text : JsString}

/-- A number left in place, before and after redaction. -/
theorem LeftInPlace.stands {pre num post : JsString} (h : LeftInPlace text pre num post)
    (hnum : Numeral num) :
    ∃ post', redacted text = shownBefore text pre.length ++ (num ++ post') ∧
      Alone (shownBefore text pre.length) post' := by
  obtain ⟨pre', post', hout, hstands⟩ :=
    (redactText_replaced text).stands h.split (free_apart h.free)
  rw [hstands.shownBefore h.split]
  exact ⟨post', hout, (hstands.alone_iff h.split hnum).1 h.alone⟩

/-- A number in the redacted text was left in place. -/
theorem left_of_redacted {pre' num post' : JsString} (hout : redacted text = pre' ++ (num ++ post'))
    (halone : Alone pre' post') (hnum : Numeral num) :
    ∃ pre post, LeftInPlace text pre num post ∧ shownBefore text pre.length = pre' := by
  obtain ⟨pre, post, hsplit, hstands⟩ := (redactText_replaced text).stands_back hout hnum
  exact ⟨pre, post, ⟨hsplit, (hstands.alone_iff hsplit hnum).2 halone, hstands.free⟩,
    hstands.shownBefore hsplit⟩

/-- A number that is an identifier by itself is not left in place. -/
theorem LeftInPlace.not_identifies {pre num post : JsString} (h : LeftInPlace text pre num post) :
    ¬∀ p, Identifies p num := by
  intro hid
  obtain ⟨m, hm, hstart, hstop⟩ := identifier_intersects h.alone (hid pre)
  rw [← h.split] at hm
  have htrue : overlaps (scanText text) pre.length (pre.length + num.length) = true :=
    overlaps_eq_true.2 ⟨m, hm, hstop, hstart⟩
  rw [h.free] at htrue
  cases htrue

/-- **What is seen in a redacted text was exposed.** -/
theorem seen_redacted_iff : Seen (redacted text) ↔ Exposed text := by
  have hcard : HasCard (redacted text) ↔ ∃ piece ∈ kept text, HasCard piece :=
    hasCard_redactFrom (ahead_scanText text)
  constructor
  · intro h
    cases h with
    | card h =>
        obtain ⟨piece, hmem, h⟩ := hcard.1 h
        exact .card hmem h
    | number split alone h =>
        obtain ⟨pre, post, hleft, -⟩ := left_of_redacted split alone (h []).numeral
        exact absurd h hleft.not_identifies
    | ssn split alone digits valid keyword =>
        obtain ⟨pre, post, hleft, rfl⟩ := left_of_redacted split alone (digits.numeral (by decide))
        exact .ssn hleft digits valid keyword
    | account split alone digits least most keyword =>
        obtain ⟨pre, post, hleft, rfl⟩ := left_of_redacted split alone (digits.numeral (by omega))
        exact .account hleft digits least most keyword
  · intro h
    cases h with
    | card mem h => exact .card (hcard.2 ⟨_, mem, h⟩)
    | ssn left digits valid keyword =>
        obtain ⟨post', hout, halone⟩ := left.stands (digits.numeral (by decide))
        exact .ssn hout halone digits valid keyword
    | account left digits least most keyword =>
        obtain ⟨post', hout, halone⟩ := left.stands (digits.numeral (by omega))
        exact .account hout halone digits least most keyword

theorem scanText_redacted : scanText (redacted text) = [] ↔ ¬Exposed text := by
  rw [← seen_redacted_iff, ← scanText_ne_nil_iff, not_not]

theorem Replaced.first {place : ℕ} {rest out : JsString} {m : ScrubMatch} {ms : List ScrubMatch}
    (h : Replaced place rest (m :: ms) out) :
    ∃ kept out', place + kept.length = m.start ∧ out = kept ++ (REDACTION m.type ++ out') := by
  cases h with
  | @next _ kept span rest out _ _ hstart hstop hmore => exact ⟨kept, out, hstart, rfl⟩

/-- A text with matches is changed by redaction. -/
theorem redacted_eq_self : redacted text = text ↔ scanText text = [] := by
  constructor
  · intro h
    by_contra hne
    obtain ⟨m, ms, hms⟩ := List.exists_cons_of_ne_nil hne
    obtain ⟨pre, span, post, hreported, -⟩ :=
      reported ((scanText_perm text).mem_iff.1 (hms ▸ List.mem_cons_self))
    have hreplaced := redactText_replaced text
    rw [hms] at hreplaced
    obtain ⟨kept, out, hstart, hout⟩ := hreplaced.first
    have htexts : pre ++ (span ++ post) = kept ++ (REDACTION m.type ++ out) := by
      rw [← hout, ← hreported.split, ← hms]
      exact h.symm
    have hlength : pre.length = kept.length := by
      rw [← hreported.start, ← hstart, Nat.zero_add]
    obtain ⟨x, hx, hdigit⟩ := hreported.head
    have hne := redaction_ne_nil m.type
    have hheads := congrArg List.head? (List.append_inj htexts hlength).2
    have hspan : span ≠ [] := by
      intro hnil
      rw [hnil] at hx
      cases hx
    rw [List.head?_append_of_ne_nil _ hspan, List.head?_append_of_ne_nil _ hne,
      List.head?_eq_some_head hne] at hheads
    obtain rfl := Option.some.inj (hx.symm.trans hheads)
    have hparts := (parts_redaction m.type _ (List.head_mem hne)).digitOrDash
    rw [hdigit] at hparts
    cases hparts
  · intro h
    unfold redacted
    rw [h]
    rfl

end

/-! ### Envelopes -/

theorem textFields_mapTexts (f : JsString → JsString) (env : AIRequest) :
    textFields (env.mapTexts f) = (textFields env).map f := by
  have hcontent : ∀ c : Content, (c.mapTexts f).texts = c.texts.map f := by
    intro c
    cases c with
    | text s => rfl
    | parts ps =>
        induction ps with
        | nil => rfl
        | cons p ps ih =>
            cases p with
            | text t => exact congrArg (f t :: ·) ih
            | image url => exact ih
  have hmessage : ∀ m : AIMessage, (m.mapTexts f).textFields = m.textFields.map f := by
    intro m
    unfold AIMessage.textFields AIMessage.mapTexts
    rw [hcontent, List.map_append]
    cases m.toolCalls with
    | none => rfl
    | some tcs => simp
  unfold textFields AIRequest.mapTexts
  rw [List.flatMap_map, List.map_flatMap]
  simp only [hmessage]

theorem scanEnvelope_total_eq_zero (env : AIRequest) :
    (scanEnvelope env).total = 0 ↔ ∀ text ∈ textFields env, scanText text = [] := by
  rw [scanEnvelope_total, inserted, List.sum_eq_zero_iff_forall_eq_nat]
  simp only [List.mem_map, forall_exists_index, and_imp, forall_apply_eq_imp_iff₂,
    insertedFrom_eq (ahead_scanText _), List.length_eq_zero_iff]

/-- **When redaction settles.**  A redacted text has no matches exactly when the redaction has exposed
nothing; then it is left as it is by another redaction; and a redacted envelope has no matches exactly
when this is so for all of its texts. -/
theorem redaction_settles (text : JsString) (env : AIRequest) :
    (scanText (redactText text (scanText text)) = [] ↔ ¬Exposed text) ∧
    (redacted (redacted text) = redacted text ↔ ¬Exposed text) ∧
    ((scanEnvelope (redactEnvelope env).1).total = 0 ↔
      ∀ text ∈ textFields env, ¬Exposed text) := by
  refine ⟨scanText_redacted, ?_, ?_⟩
  · rw [redacted_eq_self, scanText_redacted]
  · rw [redactEnvelope_eq, scanEnvelope_total_eq_zero, textFields_mapTexts]
    simp only [List.mem_map, forall_exists_index, and_imp, forall_apply_eq_imp_iff₂,
      scanText_redacted]

namespace Sample

/-- The number at the end is too far from the word in the text, and close enough to the
placeholder. -/
def twoNumbers : JsString := js "account 12345678901234567, see also 654321"

theorem twoNumbers_redacted : redactText twoNumbers (scanText twoNumbers) =
    js "account [ACCOUNT], see also 654321" := by
  decide

theorem scanText_twoNumbers_redacted :
    scanText (js "account [ACCOUNT], see also 654321") = [⟨.account, 28, 34⟩] := by
  decide

end Sample

/-- **A placeholder becomes a keyword.** -/
theorem placeholder_exposes : ¬∀ text, scanText (redactText text (scanText text)) = [] := by
  intro h
  have hsettled := h Sample.twoNumbers
  rw [Sample.twoNumbers_redacted, Sample.scanText_twoNumbers_redacted] at hsettled
  cases hsettled

end VibeRouter
