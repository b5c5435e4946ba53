import VibeRouter.Protect.Spans
import VibeRouter.Lib.RegexShapes

/-! # Identifiers that are not missed

Social security numbers, employer identification numbers and routing numbers that stand alone in
a text intersect a match of the scan, whatever stands around them.  Each is found by the expression
of its pass (`found_ssn`, `found_ein`, `found_digits`), since no other match of that expression
reaches into it; and the pass keeps it, or an earlier match overlaps it (`overlaps_found`). -/

namespace VibeRouter

open Regex

/-! ### What is looked for -/

/-- A text that neither follows nor precedes a digit or a dash. -/
structure Alone (pre post : JsString) : Prop where
  before : ∀ x ∈ pre.getLast?, digitOrDash x = false
  after : ∀ x ∈ post.head?, digitOrDash x = false

/-- `n` digits. -/
structure Digits (n : ℕ) (ds : JsString) : Prop where
  length : ds.length = n
  all : ∀ x ∈ ds, JsString.isDigit x = true

/-- The word, in letters of either case. -/
def Spells (word : String) (text : JsString) : Prop :=
  List.Forall₂ (fun c x => x = c.toLower.toNat ∨ x = c.toUpper.toNat) word.toList text

/-- A keyword of social security numbers. -/
inductive SsnKeyword : JsString → Prop
  | ssn {k : JsString} (h : Spells "ssn" k) : SsnKeyword k
  | itin {k : JsString} (h : Spells "itin" k) : SsnKeyword k
  | social {a ws b : JsString} (ha : Spells "social" a) (hws : ∀ x ∈ ws, JsString.isSpace x = true)
      (hb : Spells "security" b) : SsnKeyword (a ++ (ws ++ b))
  | taxpayer {a ws b : JsString} (ha : Spells "taxpayer" a)
      (hws : ∀ x ∈ ws, JsString.isSpace x = true) (hb : Spells "id" b) : SsnKeyword (a ++ (ws ++ b))

/-- The identifiers, after the text `pre`. -/
inductive Identifies (pre : JsString) : JsString → Prop
  | ssn {area group serial : JsString} {sep : ℕ} (harea : Digits 3 area) (hgroup : Digits 2 group)
      (hserial : Digits 4 serial) (hsep : spaceOrDash sep = true)
      (valid : validSsnParts area group serial = true) :
      Identifies pre (area ++ sep :: (group ++ sep :: serial))
  | ein {campus serial : JsString} (hcampus : Digits 2 campus) (hserial : Digits 7 serial)
      (valid : EIN_PREFIXES.contains (JsString.digitsValue campus) = true) :
      Identifies pre (campus ++ 45 :: serial)
  | routing {digits : JsString} (hdigits : Digits 9 digits) (checksum : abaChecksumValid digits = true)
      (prefixed : abaPrefixValid digits = true) : Identifies pre digits
  | bareSsn {digits a k b : JsString} (hdigits : Digits 9 digits)
      (valid : validSsnParts (digits.slice 0 3) (digits.slice 3 5) (digits.drop 5) = true)
      (window : pre.drop (pre.length - 40) = a ++ (k ++ b)) (keyword : SsnKeyword k) :
      Identifies pre digits

/-! ### What a pass keeps -/

theorem overlaps_collect {type : MatchType} {valid : Match → Bool} {found : List Match}
    {ms : List ScrubMatch} {start stop : ℕ} (h : overlaps ms start stop = true) :
    overlaps (collect type valid found ms) start stop = true := by
  induction found generalizing ms with
  | nil => exact h
  | cons m found ih =>
      rw [collect_cons]
      refine ih ?_
      split
      · exact h
      · split
        · exact overlaps_append_left h
        · exact h

/-- A valid candidate of a pass is kept, or overlaps what is kept. -/
theorem overlaps_found {type : MatchType} {valid : Match → Bool} {found : List Match}
    {ms : List ScrubMatch} {m : Match} {start stop : ℕ} (hm : m ∈ found) (hvalid : valid m = true)
    (hstart : m.index = start) (hstop : m.stop = stop) (hnonempty : start < stop) :
    overlaps (collect type valid found ms) start stop = true := by
  induction found generalizing ms with
  | nil => cases hm
  | cons m' found ih =>
      rw [collect_cons]
      rcases List.mem_cons.1 hm with rfl | hm
      · refine overlaps_collect ?_
        rw [hstart, hstop]
        by_cases hoverlaps : overlaps ms start stop = true
        · rw [if_pos hoverlaps]
          exact hoverlaps
        · rw [if_neg hoverlaps, if_pos hvalid, overlaps_eq_true]
          exact ⟨_, List.mem_append_right _ (List.mem_singleton_self _), hnonempty, hnonempty⟩
      · exact ih hm

/-! ### Places in a text -/

/-- The last character before a span. -/
theorem getElem?_before {pre : JsString} (rest : JsString) {i : ℕ} (hi : i + 1 = pre.length) :
    (pre ++ rest)[i]? = pre.getLast? := by
  rw [List.getElem?_append_left (by omega), List.getLast?_eq_getElem?]
  congr 1
  omega

/-- A match over characters in `p` that begins before a text standing alone ends before it. -/
theorem stop_le_of_within {p : ℕ → Bool} {r : Regex} {pre rest : JsString} {m : Match}
    (hp : ∀ x, p x = true → digitOrDash x = true) (hr : Within p r)
    (hfound : Found r (pre ++ rest) m) (hbefore : ∀ x ∈ pre.getLast?, digitOrDash x = false)
    (hindex : m.index < pre.length) : m.stop ≤ pre.length := by
  by_contra hlt
  have hall := hfound.within hr
  obtain ⟨pre', c, htext, hpre', -, -⟩ := hfound
  have hstop : m.stop = m.index + m.text.length := rfl
  obtain ⟨i, hi⟩ : ∃ i, i + 1 = pre.length := ⟨pre.length - 1, by omega⟩
  have hlast := getElem?_before rest hi
  have hinside : (pre ++ rest)[i]? = m.text[i - m.index]? := by
    rw [htext, List.append_assoc, List.getElem?_append_right (by omega),
      List.getElem?_append_left (by omega), hpre']
  have hi' : i - m.index < m.text.length := by omega
  have hx : m.text[i - m.index]? = some m.text[i - m.index] := List.getElem?_eq_getElem hi'
  have hchar := hall _ (List.getElem_mem hi')
  rw [hlast] at hinside
  have hno := hbefore _ (hinside.trans hx)
  rw [hp _ hchar] at hno
  cases hno

/-! ### Runs of digits -/

theorem head?_reverse_before {pre : JsString} (h : ∀ x ∈ pre.getLast?, digitOrDash x = false) :
    ∀ x ∈ pre.reverse.head?, digitOrDash x = false := by
  intro x hx
  rw [List.head?_reverse] at hx
  exact h x hx

theorem head?_reverse_after {pre : JsString} (h : ∀ x ∈ pre.reverse.head?, digitOrDash x = false) :
    ∀ x ∈ pre.getLast?, digitOrDash x = false := by
  intro x hx
  rw [← List.head?_reverse] at hx
  exact h x hx

theorem digitOrDash_of_isDigit {x : ℕ} (h : JsString.isDigit x = true) : digitOrDash x = true := by
  unfold digitOrDash
  rw [h, Bool.true_or]

theorem isDigit_of_digitOrDash {x : ℕ} (h : digitOrDash x = false) : JsString.isDigit x = false := by
  unfold digitOrDash at h
  exact (Bool.or_eq_false_iff.1 h).1

/-- Two ways to split a text after its first digits are the same. -/
theorem digits_unique {ds es post rest : JsString} (h : ds ++ post = es ++ rest)
    (hds : ∀ x ∈ ds, JsString.isDigit x = true) (hes : ∀ x ∈ es, JsString.isDigit x = true)
    (hpost : ∀ x ∈ post.head?, digitOrDash x = false)
    (hrest : ∀ x ∈ rest.head?, digitOrDash x = false) : ds = es := by
  induction ds generalizing es with
  | nil =>
      cases es with
      | nil => rfl
      | cons e es =>
          have hhead : e ∈ post.head? := by
            rw [show post = e :: es ++ rest from h]
            rfl
          have hno := isDigit_of_digitOrDash (hpost e hhead)
          rw [hes e List.mem_cons_self] at hno
          cases hno
  | cons d ds ih =>
      cases es with
      | nil =>
          have hhead : d ∈ rest.head? := by
            rw [show rest = d :: ds ++ post from h.symm]
            rfl
          have hno := isDigit_of_digitOrDash (hrest d hhead)
          rw [hds d List.mem_cons_self] at hno
          cases hno
      | cons e es =>
          obtain ⟨rfl, htail⟩ := List.cons.inj h
          rw [ih htail (fun x hx => hds x (List.mem_cons_of_mem _ hx))
            fun x hx => hes x (List.mem_cons_of_mem _ hx)]

/-- `(?<![\d-])\d{least,most}(?![\d-])`. -/
theorem run_digits {least most : ℕ} (hbounds : least ≤ most) {pre rest : JsString} {c : Cursor} :
    c ∈ run (standalone [digit.upTo least most]) ⟨pre.reverse, rest, fun _ => none⟩ ↔
      (∀ x ∈ pre.getLast?, digitOrDash x = false) ∧ (∀ x ∈ c.rest.head?, digitOrDash x = false) ∧
      ∃ n, least ≤ n ∧ n ≤ most ∧
        Reads JsString.isDigit n ⟨pre.reverse, rest, fun _ => none⟩ c := by
  have hallows : Allows (some most) least := fun k hk => by cases hk; exact hbounds
  show c ∈ run (seq (notBehind digitOrDash) (seq (rep (char JsString.isDigit) least (some most) true)
    (seq (notAhead digitOrDash) eps))) _ ↔ _
  constructor
  · intro h
    obtain ⟨c₀, hc₀, hdigits⟩ := mem_run_seq.1 h
    obtain ⟨rfl, hbefore⟩ := mem_run_notBehind hc₀
    obtain ⟨c₁, hc₁, hahead⟩ := mem_run_seq.1 hdigits
    obtain ⟨n, hleast, hmost, hreads⟩ := (mem_run_rep_char hallows).1 hc₁
    obtain ⟨c₂, hc₂, hend⟩ := mem_run_seq.1 hahead
    obtain ⟨rfl, hafter⟩ := mem_run_notAhead hc₂
    rw [run] at hend
    obtain rfl := List.mem_singleton.1 hend
    exact ⟨head?_reverse_after hbefore, hafter, n, hleast, hmost most rfl, hreads⟩
  · intro h
    obtain ⟨hbefore, hafter, n, hleast, hmost, hreads⟩ := h
    have hbehind := run_notBehind (p := digitOrDash)
      (c := ⟨pre.reverse, rest, fun _ => none⟩) (head?_reverse_before hbefore)
    have hbound : Allows (some most) n := fun k hk => by cases hk; exact hmost
    refine mem_run_seq.2 ⟨_, by rw [hbehind]; exact List.mem_singleton_self _, ?_⟩
    refine mem_run_seq.2 ⟨c, (mem_run_rep_char hallows).2 ⟨n, hleast, hbound, hreads⟩, ?_⟩
    refine mem_run_seq.2 ⟨c, by rw [run_notAhead hafter]; exact List.mem_singleton_self _, ?_⟩
    rw [run]
    exact List.mem_singleton_self _

/-- A run of digits standing alone is reported. -/
theorem found_digits {least most n : ℕ} {pre ds post : JsString} (halone : Alone pre post)
    (hds : Digits n ds) (hleast : least ≤ n) (hmost : n ≤ most) :
    ∃ m ∈ (standalone [digit.upTo least most]).matchAll (pre ++ (ds ++ post)),
      m.index = pre.length ∧ m.text = ds := by
  have hbounds := Nat.le_trans hleast hmost
  have hreads : Reads JsString.isDigit n ⟨pre.reverse, ds ++ post, fun _ => none⟩
      ⟨ds.reverse ++ pre.reverse, post, fun _ => none⟩ := by
    refine ⟨ds, post, rfl, hds.length, hds.all, ?_⟩
    rw [← hds.length, advance_append]
  have hmem := (run_digits hbounds).2 ⟨halone.before, halone.after, n, hleast, hmost, hreads⟩
  obtain ⟨c, hexec⟩ := Option.isSome_iff_exists.1 (exec_isSome hmem)
  obtain ⟨-, hafter, k, -, -, hreads⟩ := (run_digits hbounds).1 (List.mem_of_mem_head? hexec)
  obtain ⟨es, hsplit, -, hall, -⟩ := hreads.split
  replace hsplit : ds ++ post = es ++ c.rest := hsplit
  have heq := digits_unique hsplit hds.all hall halone.after hafter
  obtain ⟨m, hm, hcase⟩ := matchAll_covers rfl hexec
  rcases hcase with rfl | ⟨hindex, hstop⟩
  · refine ⟨_, hm, List.length_reverse, ?_⟩
    rw [text_matchOf hsplit, heq]
  · exfalso
    have hwithin : Within JsString.isDigit (standalone [digit.upTo least most]) :=
      ⟨trivial, fun x hx => hx, trivial, trivial⟩
    have := stop_le_of_within (fun x => digitOrDash_of_isDigit) hwithin (found_of_mem_matchAll hm)
      halone.before hindex
    omega

/-! ### Employer identification numbers -/

theorem exec_ein {pre campus serial post : JsString} (halone : Alone pre post)
    (hcampus : Digits 2 campus) (hserial : Digits 7 serial) :
    ∃ c, EIN.exec pre.reverse (campus ++ (45 :: serial ++ post)) = some c ∧ c.rest = post ∧
      c.groups 1 = some campus := by
  have hdash : js "-" = [45] := by decide
  have hbefore := head?_reverse_before halone.before
  refine ⟨⟨serial.reverse ++ (45 :: (campus.reverse ++ pre.reverse)), post, fun k =>
    if k = 2 then some serial else if k = 1 then some campus else none⟩, ?_, rfl, rfl⟩
  have hfirst := @run_group _ pre.reverse _ _ ([45] ++ (serial ++ post)) (fun _ => none) _ 1
    (run_times hcampus.length hcampus.all)
  have hrun : run EIN ⟨pre.reverse, campus ++ ([45] ++ (serial ++ post)), fun _ => none⟩ =
      [⟨serial.reverse ++ (45 :: (campus.reverse ++ pre.reverse)), post, fun k =>
        if k = 2 then some serial else if k = 1 then some campus else none⟩] := by
    unfold EIN standalone
    rw [run, run_notBehind hbefore, List.flatMap_singleton]
    show run (seq (group 1 (times digit 2)) (seq (literal (js "-"))
      (seq (group 2 (times digit 7)) (seq (notAhead digitOrDash) eps)))) _ = _
    rw [run, digit, hfirst, List.flatMap_singleton, run, hdash]
    unfold Cursor.capture
    rw [run_literal_of, List.flatMap_singleton, run,
      run_group 2 (run_times hserial.length hserial.all), List.flatMap_singleton, run]
    unfold Cursor.capture
    rw [run_notAhead halone.after, List.flatMap_singleton, run]
    rfl
  unfold exec
  show (run EIN ⟨pre.reverse, campus ++ ([45] ++ (serial ++ post)), fun _ => none⟩).head? = _
  rw [hrun]
  rfl

/-! ### Social security numbers -/

theorem exec_ssn {pre area group serial post : JsString} {sep : ℕ} (halone : Alone pre post)
    (harea : Digits 3 area) (hgroup : Digits 2 group) (hserial : Digits 4 serial)
    (hsep : spaceOrDash sep = true) :
    ∃ c, SSN.exec pre.reverse (area ++ (sep :: (group ++ (sep :: (serial ++ post))))) = some c ∧
      c.rest = post ∧ c.groups 1 = some area ∧ c.groups 3 = some group ∧ c.groups 4 = some serial := by
  have hbefore := head?_reverse_before halone.before
  refine ⟨⟨serial.reverse ++ (sep :: (group.reverse ++ (sep :: (area.reverse ++ pre.reverse)))), post,
    fun k => if k = 4 then some serial else if k = 3 then some group else
      if k = 2 then some [sep] else if k = 1 then some area else none⟩, ?_, rfl, rfl, rfl, rfl⟩
  have hrun : run SSN ⟨pre.reverse, area ++ ([sep] ++ (group ++ ([sep] ++ (serial ++ post)))),
      fun _ => none⟩ =
      [⟨serial.reverse ++ (sep :: (group.reverse ++ (sep :: (area.reverse ++ pre.reverse)))), post,
        fun k => if k = 4 then some serial else if k = 3 then some group else
          if k = 2 then some [sep] else if k = 1 then some area else none⟩] := by
    unfold SSN standalone
    rw [run, run_notBehind hbefore, List.flatMap_singleton]
    show run (seq (Regex.group 1 (times digit 3)) (seq (Regex.group 2 (char spaceOrDash))
      (seq (Regex.group 3 (times digit 2)) (seq (backref 2)
        (seq (Regex.group 4 (times digit 4)) (seq (notAhead digitOrDash) eps)))))) _ = _
    rw [run, digit, run_group 1 (run_times harea.length harea.all), List.flatMap_singleton, run]
    unfold Cursor.capture
    rw [@run_group _ _ _ [sep] _ _ _ 2 (run_char_of hsep), List.flatMap_singleton, run]
    unfold Cursor.capture
    rw [run_group 3 (run_times hgroup.length hgroup.all), List.flatMap_singleton, run]
    unfold Cursor.capture
    rw [run_backref (s := [sep]) rfl, List.flatMap_singleton, run,
      run_group 4 (run_times hserial.length hserial.all), List.flatMap_singleton, run]
    unfold Cursor.capture
    rw [run_notAhead halone.after, List.flatMap_singleton, run]
    rfl
  unfold exec
  show (run SSN ⟨pre.reverse, area ++ ([sep] ++ (group ++ ([sep] ++ (serial ++ post)))),
    fun _ => none⟩).head? = _
  rw [hrun]
  rfl

/-- What the expression for social security numbers finds. -/
theorem ssn_shape {text : JsString} {m : Match} (h : Found SSN text m) :
    ∃ area group serial sep, m.text = area ++ sep :: (group ++ sep :: serial) ∧ Digits 3 area ∧
      Digits 2 group ∧ Digits 4 serial ∧ spaceOrDash sep = true := by
  obtain ⟨pre, c, -, -, -, hexec⟩ := h
  have hmem := List.mem_of_mem_head? hexec
  unfold SSN standalone at hmem
  obtain ⟨c₀, hc₀, hmem⟩ := mem_run_seq.1 hmem
  obtain ⟨rfl, -⟩ := mem_run_notBehind hc₀
  obtain ⟨c₁, hc₁, hmem⟩ := mem_run_seq.1 hmem
  obtain ⟨d₁, hd₁, rfl⟩ := mem_run_group.1 hc₁
  obtain ⟨area, harea, hlarea, haarea, -⟩ := (mem_run_times.1 hd₁).split
  obtain ⟨c₂, hc₂, hmem⟩ := mem_run_seq.1 hmem
  obtain ⟨d₂, hd₂, rfl⟩ := mem_run_group.1 hc₂
  obtain ⟨sep, hsep, hclass, hcursor⟩ := mem_run_char hd₂
  obtain ⟨c₃, hc₃, hmem⟩ := mem_run_seq.1 hmem
  obtain ⟨d₃, hd₃, rfl⟩ := mem_run_group.1 hc₃
  obtain ⟨grp, hgroup, hlgroup, hagroup, hkeep⟩ := (mem_run_times.1 hd₃).split
  obtain ⟨c₄, hc₄, hmem⟩ := mem_run_seq.1 hmem
  obtain ⟨c₅, hc₅, hmem⟩ := mem_run_seq.1 hmem
  obtain ⟨d₅, hd₅, rfl⟩ := mem_run_group.1 hc₅
  obtain ⟨serial, hserial, hlserial, haserial, -⟩ := (mem_run_times.1 hd₅).split
  obtain ⟨c₆, hc₆, hmem⟩ := mem_run_seq.1 hmem
  obtain ⟨rfl, -⟩ := mem_run_notAhead hc₆
  have hend : c = d₅.capture 4 (c₄.between d₅) := by
    have hmem : c ∈ run eps _ := hmem
    rw [run] at hmem
    exact List.mem_singleton.1 hmem
  -- the second separator repeats the first
  have hbetween : ∀ t, (d₁.capture 1 t).between d₂ = [sep] := by
    intro t
    have hone : (d₁.capture 1 t).rest = [sep] ++ d₂.rest := hsep
    unfold Cursor.between
    rw [hone, List.length_append, Nat.add_sub_cancel, List.take_left]
  have hcaptured : ∀ t, (d₃.capture 3 t).groups 2 = some [sep] := by
    intro t
    show (if 2 = 3 then some t else d₃.groups 2) = _
    rw [if_neg (by decide), hkeep]
    show (if 2 = 2 then some _ else d₂.groups 2) = _
    rw [if_pos rfl, hbetween]
  obtain ⟨hagain, -⟩ := mem_run_backref (hcaptured _) hc₄
  have htext : m.text ++ c.rest = area ++ sep :: (grp ++ sep :: serial) ++ c.rest := by
    have harea : m.text ++ c.rest = area ++ d₁.rest := harea
    have hsep : d₁.rest = sep :: d₂.rest := hsep
    have hgroup : d₂.rest = grp ++ d₃.rest := hgroup
    have hagain : d₃.rest = [sep] ++ c₄.rest := hagain
    have hrest : c.rest = d₅.rest := by
      rw [hend]
      rfl
    rw [harea, hsep, hgroup, hagain, hserial, hrest]
    simp
  exact ⟨area, grp, serial, sep, List.append_cancel_right htext, ⟨hlarea, haarea⟩,
    ⟨hlgroup, hagroup⟩, ⟨hlserial, haserial⟩, hclass⟩

section

variable {area grp serial : JsString} {sep : ℕ}

/-- The separators of a social security number. -/
theorem ssn_sep (serial : JsString) (sep : ℕ) (harea : Digits 3 area) (hgroup : Digits 2 grp) :
    (area ++ sep :: (grp ++ sep :: serial))[3]? = some sep ∧
      (area ++ sep :: (grp ++ sep :: serial))[6]? = some sep := by
  have hthree := harea.length
  have htwo := hgroup.length
  constructor
  · rw [List.getElem?_append_right (by omega), hthree]
    rfl
  · have hsplit : area ++ sep :: (grp ++ sep :: serial) = (area ++ sep :: grp) ++ sep :: serial := by
      simp
    have hsix : (area ++ sep :: grp).length = 6 := by
      rw [List.length_append, List.length_cons]
      omega
    rw [hsplit, List.getElem?_append_right (by omega), hsix]
    rfl

/-- Its other characters are digits. -/
theorem ssn_digit (harea : Digits 3 area) (hgroup : Digits 2 grp) (hserial : Digits 4 serial)
    {k x : ℕ} (hx : (area ++ sep :: (grp ++ sep :: serial))[k]? = some x) (h₃ : k ≠ 3)
    (h₆ : k ≠ 6) : JsString.isDigit x = true := by
  have hthree := harea.length
  have htwo := hgroup.length
  by_cases hfirst : k < 3
  · rw [List.getElem?_append_left (by omega)] at hx
    exact harea.all x (List.mem_of_getElem? hx)
  · obtain ⟨j, rfl⟩ : ∃ j, k = 3 + (j + 1) := ⟨k - 4, by omega⟩
    rw [List.getElem?_append_right (by omega), hthree, Nat.add_sub_cancel_left,
      List.getElem?_cons_succ] at hx
    by_cases hsecond : j < 2
    · rw [List.getElem?_append_left (by omega)] at hx
      exact hgroup.all x (List.mem_of_getElem? hx)
    · obtain ⟨l, rfl⟩ : ∃ l, j = 2 + (l + 1) := ⟨j - 3, by omega⟩
      rw [List.getElem?_append_right (by omega), htwo, Nat.add_sub_cancel_left,
        List.getElem?_cons_succ] at hx
      exact hserial.all x (List.mem_of_getElem? hx)

end

theorem ssn_length {area grp serial : JsString} (sep : ℕ) (harea : Digits 3 area)
    (hgroup : Digits 2 grp) (hserial : Digits 4 serial) :
    (area ++ sep :: (grp ++ sep :: serial)).length = 11 := by
  simp [harea.length, hgroup.length, hserial.length]

theorem isDigit_of_spaceOrDash {x : ℕ} (h : spaceOrDash x = true) : JsString.isDigit x = false := by
  unfold spaceOrDash at h
  rcases Bool.or_eq_true_iff.1 h with h | h
  · rw [beq_iff_eq.1 h]
    rfl
  · rw [beq_iff_eq.1 h]
    rfl

/-- The characters of a match, in the text. -/
theorem getElem?_found {r : Regex} {text : JsString} {m : Match} (h : Found r text m) {k : ℕ}
    (hk : k < m.text.length) : text[m.index + k]? = m.text[k]? := by
  obtain ⟨pre, c, htext, hindex, -, -⟩ := h
  rw [htext, hindex, List.append_assoc, List.getElem?_append_right (by omega),
    Nat.add_sub_cancel_left, List.getElem?_append_left hk]

/-- The match of a social security number standing alone is reported. -/
theorem found_ssn {pre area grp serial post : JsString} {sep : ℕ} (halone : Alone pre post)
    (harea : Digits 3 area) (hgroup : Digits 2 grp) (hserial : Digits 4 serial)
    (hsep : spaceOrDash sep = true) :
    ∃ m ∈ SSN.matchAll (pre ++ (area ++ sep :: (grp ++ sep :: serial) ++ post)),
      m.index = pre.length ∧ m.text = area ++ sep :: (grp ++ sep :: serial) ∧
      m.groups 1 = some area ∧ m.groups 3 = some grp ∧ m.groups 4 = some serial := by
  obtain ⟨c, hexec, hrest, hone, hthree, hfour⟩ := exec_ssn halone harea hgroup hserial hsep
  have hassoc : area ++ (sep :: (grp ++ (sep :: (serial ++ post)))) =
      area ++ sep :: (grp ++ sep :: serial) ++ post := by simp
  rw [hassoc] at hexec
  obtain ⟨m, hm, hcase⟩ := matchAll_covers rfl hexec
  rcases hcase with rfl | ⟨hindex, hstop⟩
  · refine ⟨_, hm, List.length_reverse, ?_, hone, hthree, hfour⟩
    exact text_matchOf (by rw [hrest])
  · exfalso
    have hfound := found_of_mem_matchAll hm
    obtain ⟨area', grp', serial', sep', hshape, harea', hgroup', hserial', -⟩ := ssn_shape hfound
    have hlength : m.text.length = 11 := by
      rw [hshape]
      exact ssn_length _ harea' hgroup' hserial'
    have hspan := ssn_length sep harea hgroup hserial
    have hend : m.stop = m.index + 11 := by
      unfold Match.stop
      rw [hlength]
    -- the character before the number lies in the earlier match, as one of its separators
    obtain ⟨j, hj⟩ : ∃ j, m.index + j + 1 = pre.length := ⟨pre.length - m.index - 1, by omega⟩
    have hjlt : j < m.text.length := by omega
    obtain ⟨x, hx⟩ : ∃ x, m.text[j]? = some x := ⟨m.text[j], List.getElem?_eq_getElem hjlt⟩
    have hlast : pre.getLast? = some x := by
      rw [← getElem?_before (area ++ sep :: (grp ++ sep :: serial) ++ post) hj,
        getElem?_found hfound hjlt, hx]
    have hnodigit := isDigit_of_digitOrDash (halone.before x hlast)
    -- the characters of the number, in the earlier match
    have hinside : ∀ k, k < 11 → j + 1 + k < 11 →
        m.text[j + 1 + k]? = (area ++ sep :: (grp ++ sep :: serial))[k]? := by
      intro k hk hk'
      rw [← getElem?_found hfound (by omega), ← Nat.add_assoc, ← Nat.add_assoc, hj,
        List.getElem?_append_right (by omega), Nat.add_sub_cancel_left,
        List.getElem?_append_left (by omega)]
    obtain ⟨hsep₃, hsep₆⟩ := ssn_sep serial sep harea hgroup
    obtain ⟨hsep₃', hsep₆'⟩ := ssn_sep serial' sep' harea' hgroup'
    rw [hshape] at hx
    by_cases h₃ : j = 3
    · subst h₃
      have hxsep : x = sep' := Option.some.inj (hx.symm.trans hsep₃')
      have htwo := hinside 2 (by decide) (by decide)
      rw [hshape, hsep₆'] at htwo
      have hdigit := ssn_digit harea hgroup hserial htwo.symm (by decide) (by decide)
      rw [← hxsep, hnodigit] at hdigit
      cases hdigit
    · by_cases h₆ : j = 6
      · subst h₆
        have hthree' := hinside 3 (by decide) (by decide)
        rw [hshape, hsep₃] at hthree'
        have hdigit := ssn_digit harea' hgroup' hserial' hthree' (by decide) (by decide)
        rw [isDigit_of_spaceOrDash hsep] at hdigit
        cases hdigit
      · have hdigit := ssn_digit harea' hgroup' hserial' hx h₃ h₆
        rw [hnodigit] at hdigit
        cases hdigit

theorem within_ein : Within digitOrDash EIN := by
  have hdash : js "-" = [45] := by decide
  have hdigit : ∀ x, JsString.isDigit x = true → digitOrDash x = true :=
    fun x => digitOrDash_of_isDigit
  have hminus : ∀ x : ℕ, (x == 45) = true → digitOrDash x = true := by
    intro x hx
    unfold digitOrDash
    rw [hx, Bool.or_true]
  unfold EIN standalone
  rw [hdash]
  exact ⟨trivial, hdigit, ⟨hminus, trivial⟩, hdigit, trivial, trivial⟩

/-- The match of an employer identification number standing alone is reported. -/
theorem found_ein {pre campus serial post : JsString} (halone : Alone pre post)
    (hcampus : Digits 2 campus) (hserial : Digits 7 serial) :
    ∃ m ∈ EIN.matchAll (pre ++ (campus ++ 45 :: serial ++ post)),
      m.index = pre.length ∧ m.text = campus ++ 45 :: serial ∧ m.groups 1 = some campus := by
  obtain ⟨c, hexec, hrest, hone⟩ := exec_ein halone hcampus hserial
  rw [← List.append_assoc] at hexec
  obtain ⟨m, hm, hcase⟩ := matchAll_covers rfl hexec
  rcases hcase with rfl | ⟨hindex, hstop⟩
  · refine ⟨_, hm, List.length_reverse, ?_, hone⟩
    exact text_matchOf (by rw [hrest])
  · exfalso
    have := stop_le_of_within (fun x hx => hx) within_ein (found_of_mem_matchAll hm) halone.before hindex
    omega

/-! ### Keywords -/

theorem run_word {w : String} {k : JsString} (h : Spells w k) (before post : JsString)
    (groups : ℕ → Option JsString) :
    run (word w) ⟨before, k ++ post, groups⟩ = [⟨k.reverse ++ before, post, groups⟩] := by
  unfold Spells at h
  unfold word
  generalize w.toList = cs at h ⊢
  induction h generalizing before with
  | nil =>
      rw [List.foldr_nil, run]
      rfl
  | @cons c x cs k hx _ ih =>
      have hletter : (x == c.toLower.toNat || x == c.toUpper.toNat) = true := by
        rw [Bool.or_eq_true, beq_iff_eq, beq_iff_eq]
        exact hx
      rw [List.foldr_cons, run, letter, List.cons_append, run_char_of hletter,
        List.flatMap_singleton, ih, List.reverse_cons, List.append_assoc]
      rfl

/-- Two words with white space between them. -/
theorem run_words {v w : String} {a ws b : JsString} (ha : Spells v a)
    (hws : ∀ x ∈ ws, JsString.isSpace x = true) (hb : Spells w b) (before post : JsString)
    (groups : ℕ → Option JsString) :
    ∃ c, c ∈ run (cat [word v, space.star, word w]) ⟨before, a ++ (ws ++ (b ++ post)), groups⟩ := by
  have hspace : (⟨ws.reverse ++ (a.reverse ++ before), b ++ post, groups⟩ : Cursor) ∈
      run (star (char JsString.isSpace)) ⟨a.reverse ++ before, ws ++ (b ++ post), groups⟩ :=
    mem_run_star_char.2 ⟨ws, b ++ post, rfl, hws, advance_append.symm⟩
  refine ⟨⟨b.reverse ++ (ws.reverse ++ (a.reverse ++ before)), post, groups⟩, ?_⟩
  refine mem_run_seq.2 ⟨_, by rw [run_word ha]; exact List.mem_singleton_self _, ?_⟩
  refine mem_run_seq.2 ⟨_, hspace, ?_⟩
  refine mem_run_seq.2 ⟨_, by rw [run_word hb]; exact List.mem_singleton_self _, ?_⟩
  show _ ∈ run eps _
  rw [run]
  exact List.mem_singleton_self _

/-- A text with a keyword in it passes the test. -/
theorem ssnKeyword_test {k : JsString} (h : SsnKeyword k) (a b : JsString) :
    SSN_KEYWORD.test (a ++ (k ++ b)) = true := by
  have hrun : ∃ c, c ∈ run SSN_KEYWORD ⟨a.reverse, k ++ b, fun _ => none⟩ := by
    show ∃ c, c ∈ run (alt (word "ssn") (alt (cat [word "social", space.star, word "security"])
      (alt (cat [word "taxpayer", space.star, word "id"]) (word "itin")))) _
    simp only [run, List.mem_append]
    cases h with
    | ssn h => exact ⟨_, Or.inl (by rw [run_word h]; exact List.mem_singleton_self _)⟩
    | itin h => exact ⟨_, Or.inr (Or.inr (Or.inr (by rw [run_word h]; exact List.mem_singleton_self _)))⟩
    | social ha hws hb =>
        rw [List.append_assoc, List.append_assoc]
        obtain ⟨c, hc⟩ := run_words ha hws hb a.reverse b fun _ => none
        exact ⟨c, Or.inr (Or.inl hc)⟩
    | taxpayer ha hws hb =>
        rw [List.append_assoc, List.append_assoc]
        obtain ⟨c, hc⟩ := run_words ha hws hb a.reverse b fun _ => none
        exact ⟨c, Or.inr (Or.inr (Or.inl hc))⟩
  obtain ⟨c, hc⟩ := hrun
  exact test_of_run hc

/-- The context of a match is the end of the text before it. -/
theorem context_eq {pre rest : JsString} {m : Match} (n : ℕ) (h : m.index = pre.length) :
    context (pre ++ rest) n m = pre.drop (pre.length - n) := by
  unfold context JsString.slice
  rw [h, List.drop_append_of_le_length (Nat.sub_le _ _)]
  have hlength : pre.length - (pre.length - n) = (pre.drop (pre.length - n)).length := by
    rw [List.length_drop]
  rw [hlength, List.take_left]

/-! ### Completeness -/

/-- The text at a span overlaps a match of the scan. -/
theorem intersects_of_overlaps {text : JsString} {start stop : ℕ}
    (h : overlaps (found text) start stop = true) :
    ∃ m ∈ scanText text, m.start < stop ∧ start < m.stop := by
  obtain ⟨m, hm, hstart, hstop⟩ := overlaps_eq_true.1 h
  exact ⟨m, (scanText_perm text).mem_iff.2 hm, hstop, hstart⟩

/-- **An identifier standing alone** intersects a match. -/
theorem identifier_intersects {pre span post : JsString} (halone : Alone pre post)
    (h : Identifies pre span) :
    ∃ m ∈ scanText (pre ++ (span ++ post)),
      m.start < pre.length + span.length ∧ pre.length < m.stop := by
  refine intersects_of_overlaps ?_
  unfold found scanAccount
  refine overlaps_collect ?_
  cases h with
  | @ein campus serial hcampus hserial valid =>
      obtain ⟨m, hm, hindex, htext, hone⟩ := found_ein halone hcampus hserial
      have hvalid : validEin m = true := by
        unfold validEin captured
        rw [hone]
        exact valid
      have hstop : m.stop = pre.length + (campus ++ 45 :: serial).length := by
        unfold Match.stop
        rw [hindex, htext]
      refine overlaps_found hm hvalid hindex hstop ?_
      rw [List.length_append, List.length_cons]
      omega
  | @ssn area grp serial sep harea hgroup hserial hsep valid =>
      obtain ⟨m, hm, hindex, htext, hone, hthree, hfour⟩ :=
        found_ssn halone harea hgroup hserial hsep
      have hvalid : validSsn m = true := by
        unfold validSsn captured
        rw [hone, hthree, hfour]
        exact valid
      have hstop : m.stop = pre.length + (area ++ sep :: (grp ++ sep :: serial)).length := by
        unfold Match.stop
        rw [hindex, htext]
      refine overlaps_collect (overlaps_collect (overlaps_found hm hvalid hindex hstop ?_))
      rw [ssn_length _ harea hgroup hserial]
      omega
  | routing hdigits checksum prefixed =>
      obtain ⟨m, hm, hindex, htext⟩ := found_digits halone hdigits (Nat.le_refl 9) (Nat.le_refl 9)
      have hvalid : validRouting m = true := by
        unfold validRouting
        rw [htext, checksum, prefixed]
        rfl
      have hstop : m.stop = pre.length + span.length := by
        unfold Match.stop
        rw [hindex, htext]
      refine overlaps_collect (overlaps_collect (overlaps_collect ?_))
      refine overlaps_found hm hvalid hindex hstop ?_
      rw [hdigits.length]
      omega
  | @bareSsn _ a k b hdigits valid window keyword =>
      obtain ⟨m, hm, hindex, htext⟩ := found_digits halone hdigits (Nat.le_refl 9) (Nat.le_refl 9)
      have hvalid : validBareSsn (pre ++ (span ++ post)) m = true := by
        unfold validBareSsn
        rw [context_eq 40 hindex, window, ssnKeyword_test keyword, htext, valid]
        rfl
      have hstop : m.stop = pre.length + span.length := by
        unfold Match.stop
        rw [hindex, htext]
      refine overlaps_collect (overlaps_found hm hvalid hindex hstop ?_)
      rw [hdigits.length]
      omega

/-- ` 123-45-6789.` -/
theorem identifier_intersects_dashed :
    ∃ m ∈ scanText ([32] ++ ([49, 50, 51] ++ 45 :: ([52, 53] ++ 45 :: [54, 55, 56, 57]) ++ [46])),
      m.start < 1 + 11 ∧ 1 < m.stop := by
  have halone : Alone [32] [46] := by
    constructor
    · intro x hx
      cases hx
      rfl
    · intro x hx
      cases hx
      rfl
  have harea : Digits 3 [49, 50, 51] := ⟨rfl, by decide⟩
  have hgroup : Digits 2 [52, 53] := ⟨rfl, by decide⟩
  have hserial : Digits 4 [54, 55, 56, 57] := ⟨rfl, by decide⟩
  exact identifier_intersects halone (.ssn harea hgroup hserial (by decide) (by decide))

end VibeRouter
