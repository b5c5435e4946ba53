import VibeRouter.Db.Tables
import VibeRouter.Policy.Engine
import VibeRouter.Lib.RegexShapes

/-! # Banned patterns

A banned pattern is meant as a glob (`Glob`).  The expression made of it reads a `?` as a mark on the
character before it, and a `*` as a string on one line (`Fits`).  `bannedByPattern_spec` says what the
loop over the patterns answers, and `banned_patterns_are_globs` when this is what the globs say. -/

namespace VibeRouter

open Regex

/-! ### The marks of a pattern -/

/-- The characters of a pattern with the number of `?` after each, and how many it begins with. -/
def marks : JsString → ℕ × List (ℕ × ℕ)
  | [] => (0, [])
  | c :: p =>
      if c = 63 then ((marks p).1 + 1, (marks p).2) else (0, (c, (marks p).1) :: (marks p).2)

/-- No `?` comes first, and at most one after a `*` and two after another character. -/
structure Readable (p : JsString) : Prop where
  first : (marks p).1 = 0
  most : ∀ a ∈ (marks p).2, a.2 ≤ if a.1 = 42 then 1 else 2

theorem marks_plain {c : ℕ} (hc : c ≠ 63) (p : JsString) :
    marks (c :: p) = (0, (c, (marks p).1) :: (marks p).2) := by
  rw [marks, if_neg hc]

theorem marks_mark (p : JsString) : marks (63 :: p) = ((marks p).1 + 1, (marks p).2) := by
  rw [marks, if_pos rfl]

/-- A pattern that does not begin with a `?`. -/
theorem marks_first {p : JsString} (h : ∀ q, p = 63 :: q → False) : (marks p).1 = 0 := by
  cases p with
  | nil => rfl
  | cons c p =>
      have hc : c ≠ 63 := fun hc => h p (by rw [hc])
      rw [marks_plain hc]

theorem readable_cons {c : ℕ} (hc : c ≠ 63) {p : JsString} :
    Readable (c :: p) ↔ ((marks p).1 ≤ if c = 42 then 1 else 2) ∧
      ∀ a ∈ (marks p).2, a.2 ≤ if a.1 = 42 then 1 else 2 := by
  constructor
  · intro h
    have hmost := h.most
    rw [marks_plain hc] at hmost
    exact List.forall_mem_cons.1 hmost
  · intro h
    refine ⟨by rw [marks_plain hc], ?_⟩
    rw [marks_plain hc]
    exact List.forall_mem_cons.2 h

theorem readable_iff {p : JsString} :
    Readable p ↔ (marks p).1 = 0 ∧ ∀ a ∈ (marks p).2, a.2 ≤ if a.1 = 42 then 1 else 2 :=
  ⟨fun h => ⟨h.first, h.most⟩, fun h => ⟨h.1, h.2⟩⟩

theorem readable_of_plain {p : JsString} (h : 63 ∉ p) : Readable p := by
  induction p with
  | nil => exact ⟨rfl, fun a ha => by cases ha⟩
  | cons c p ih =>
      have hmark : c ≠ 63 := fun hc => h (hc ▸ List.mem_cons_self)
      obtain ⟨hfirst, hmost⟩ := ih fun hp => h (List.mem_cons_of_mem _ hp)
      rw [readable_cons hmark, hfirst]
      exact ⟨Nat.zero_le _, hmost⟩

theorem length_marks (p : JsString) : (marks p).2.length ≤ p.length := by
  induction p with
  | nil => exact Nat.le_refl 0
  | cons c p ih =>
      by_cases hmark : c = 63
      · rw [hmark, marks_mark, List.length_cons]
        exact Nat.le_succ_of_le ih
      · rw [marks_plain hmark, List.length_cons, List.length_cons]
        omega

/-! ### Texts for a pattern -/

/-- A text without line breaks. -/
def OneLine (s : JsString) : Prop := ∀ x ∈ s, isLineTerminator x = false

/-- What is left of a pattern without its marks and its runs. -/
def bare (p : JsString) : JsString := (p.filter fun c => c ≠ 42).filter fun c => c ≠ 63

/-- The text with line breaks where a pattern has its runs, more of them than it has characters. -/
def breaks (n : ℕ) (p : JsString) : JsString :=
  p.flatMap fun c => if c = 42 then List.replicate n 10 else [c]

theorem le_countP_breaks (n : ℕ) {p : JsString} (h : 42 ∈ p) :
    n ≤ (breaks n p).countP isLineTerminator := by
  obtain ⟨q, q', rfl⟩ := List.append_of_mem h
  have hall : (List.replicate n 10).countP isLineTerminator = n := by
    rw [List.countP_replicate, if_pos (by decide)]
  unfold breaks
  rw [List.flatMap_append, List.flatMap_cons, if_pos rfl, List.countP_append, List.countP_append, hall]
  omega

section
variable [Platform]

/-! ### Two readings of a pattern -/

/-- The pattern matches as a glob: `*` stands for any string, every other character for itself, in
either case. -/
inductive Glob : JsString → JsString → Prop
  | nil : Glob [] []
  | run {p s : JsString} (w : JsString) (rest : Glob p s) : Glob (42 :: p) (w ++ s)
  | one {c x : ℕ} {p s : JsString} (hc : c ≠ 42) (hx : canonicalize x = canonicalize c)
      (rest : Glob p s) : Glob (c :: p) (x :: s)

/-- What the characters match with their marks: a `*` a string on one line, and a character that is
marked may be left out. -/
inductive Fits : List (ℕ × ℕ) → JsString → Prop
  | nil : Fits [] []
  | run {k : ℕ} {as : List (ℕ × ℕ)} {w s : JsString} (hw : ∀ x ∈ w, isLineTerminator x = false)
      (rest : Fits as s) : Fits ((42, k) :: as) (w ++ s)
  | one {c k x : ℕ} {as : List (ℕ × ℕ)} {s : JsString} (hc : c ≠ 42)
      (hx : canonicalize x = canonicalize c) (rest : Fits as s) : Fits ((c, k) :: as) (x :: s)
  | skip {c k : ℕ} {as : List (ℕ × ℕ)} {s : JsString} (hc : c ≠ 42) (hk : k ≠ 0) (rest : Fits as s) :
      Fits ((c, k) :: as) s

/-! ### The expression of a pattern -/

/-- The expression has a match at every cursor before a text that fits. -/
def Reaches (r : Regex) (as : List (ℕ × ℕ)) : Prop :=
  ∀ c : Cursor, (∃ c', c' ∈ run r c) ↔ Fits as c.rest

theorem reaches_eol : Reaches .eol [] := by
  intro c
  rw [run]
  split
  case isTrue h =>
    rw [h]
    exact ⟨fun _ => .nil, fun _ => ⟨c, List.mem_singleton_self c⟩⟩
  case isFalse h =>
    constructor
    · intro hrun
      obtain ⟨c', hc'⟩ := hrun
      cases hc'
    · intro hfits
      cases hrest : c.rest with
      | nil => exact absurd hrest h
      | cons x xs =>
          rw [hrest] at hfits
          cases hfits

section
variable {r : Regex} {as : List (ℕ × ℕ)}

theorem Reaches.line (h : Reaches r as) (greedy : Bool) (k : ℕ) :
    Reaches (.seq (.rep (.char fun x => !isLineTerminator x) 0 none greedy) r) ((42, k) :: as) := by
  have hnone : Allows none 0 := fun k hk => by cases hk
  intro c
  constructor
  · intro hrun
    obtain ⟨c', hc'⟩ := hrun
    obtain ⟨c₁, hc₁, hc'⟩ := mem_run_seq.1 hc'
    obtain ⟨n, -, -, hreads⟩ := (mem_run_rep_char hnone).1 hc₁
    obtain ⟨w, hsplit, -, hall, -⟩ := hreads.split
    rw [hsplit]
    exact .run (fun x hx => by simpa using hall x hx) ((h c₁).1 ⟨c', hc'⟩)
  · intro hfits
    generalize hrest : c.rest = rest at hfits
    cases hfits with
    | @run _ _ w s hw hfits =>
        have hadvance : (c.advance w.length).rest = s := by
          rw [Cursor.rest_advance, hrest, List.drop_left]
        obtain ⟨c', hc'⟩ := (h (c.advance w.length)).2 (by rwa [hadvance])
        have hreads : Reads (fun x => !isLineTerminator x) w.length c (c.advance w.length) :=
          ⟨w, s, hrest, rfl, fun x hx => by simp only [hw x hx, Bool.not_false], rfl⟩
        have hallows : Allows none w.length := fun k hk => by cases hk
        exact ⟨c', mem_run_seq.2 ⟨_, (mem_run_rep_char hnone).2
          ⟨w.length, Nat.zero_le _, hallows, hreads⟩, hc'⟩⟩
    | one hc => exact absurd rfl hc
    | skip hc => exact absurd rfl hc

/-- One character, read by its class. -/
theorem Reaches.read (h : Reaches r as) {c : ℕ} (c₀ : Cursor) :
    (∃ c' c₁, Reads (fun x => canonicalize x == canonicalize c) 1 c₀ c₁ ∧ c' ∈ run r c₁) ↔
      ∃ x s, c₀.rest = x :: s ∧ canonicalize x = canonicalize c ∧ Fits as s := by
  constructor
  · intro hrun
    obtain ⟨c', c₁, hreads, hc'⟩ := hrun
    obtain ⟨w, hsplit, hlength, hall, -⟩ := hreads.split
    obtain ⟨x, rfl⟩ := List.length_eq_one_iff.1 hlength
    refine ⟨x, c₁.rest, hsplit, ?_, (h c₁).1 ⟨c', hc'⟩⟩
    exact eq_of_beq (hall x (List.mem_singleton_self x))
  · intro hfits
    obtain ⟨x, s, hrest, hx, hfits⟩ := hfits
    have hadvance : (c₀.advance 1).rest = s := by
      rw [Cursor.rest_advance, hrest]
      rfl
    obtain ⟨c', hc'⟩ := (h (c₀.advance 1)).2 (by rwa [hadvance])
    refine ⟨c', c₀.advance 1, ⟨[x], s, hrest, rfl, fun y hy => ?_, rfl⟩, hc'⟩
    obtain rfl := List.mem_singleton.1 hy
    exact beq_iff_eq.2 hx

theorem Reaches.one (h : Reaches r as) {c : ℕ} (hc : c ≠ 42) :
    Reaches (.seq (wildcardAtom c) r) ((c, 0) :: as) := by
  intro c₀
  have hatom : (∃ c', c' ∈ run (.seq (wildcardAtom c) r) c₀) ↔
      ∃ c' c₁, Reads (fun x => canonicalize x == canonicalize c) 1 c₀ c₁ ∧ c' ∈ run r c₁ := by
    simp only [mem_run_seq, wildcardAtom, reads_succ, reads_zero, exists_eq_right']
  rw [hatom, h.read]
  constructor
  · intro hread
    obtain ⟨x, s, hrest, hx, hfits⟩ := hread
    rw [hrest]
    exact .one hc hx hfits
  · intro hfits
    generalize c₀.rest = rest at hfits
    cases hfits with
    | run => exact absurd rfl hc
    | @one _ _ x _ s _ hx hfits => exact ⟨x, s, rfl, hx, hfits⟩
    | skip _ hk => exact absurd rfl hk

theorem Reaches.maybe (h : Reaches r as) {c k : ℕ} (hc : c ≠ 42) (hk : k ≠ 0) (greedy : Bool) :
    Reaches (.seq (.rep (wildcardAtom c) 0 (some 1) greedy) r) ((c, k) :: as) := by
  have hallows : Allows (some 1) 0 := fun k _ => Nat.zero_le k
  intro c₀
  have hatom : (∃ c', c' ∈ run (.seq (.rep (wildcardAtom c) 0 (some 1) greedy) r) c₀) ↔
      (∃ c', c' ∈ run r c₀) ∨ ∃ c' c₁,
        Reads (fun x => canonicalize x == canonicalize c) 1 c₀ c₁ ∧ c' ∈ run r c₁ := by
    constructor
    · intro hrun
      obtain ⟨c', hc'⟩ := hrun
      obtain ⟨c₁, hc₁, hc'⟩ := mem_run_seq.1 hc'
      obtain ⟨n, -, hmost, hreads⟩ := (mem_run_rep_char hallows).1 hc₁
      have hn : n = 0 ∨ n = 1 := by
        have := hmost 1 rfl
        omega
      rcases hn with rfl | rfl
      · rw [reads_zero.1 hreads] at hc'
        exact Or.inl ⟨c', hc'⟩
      · exact Or.inr ⟨c', c₁, hreads, hc'⟩
    · intro hrun
      rcases hrun with ⟨c', hc'⟩ | ⟨c', c₁, hreads, hc'⟩
      · exact ⟨c', mem_run_seq.2 ⟨c₀, (mem_run_rep_char hallows).2
          ⟨0, Nat.le_refl 0, hallows, reads_zero.2 rfl⟩, hc'⟩⟩
      · have hone : Allows (some 1) 1 := fun k hk => (Option.some.inj hk).le
        exact ⟨c', mem_run_seq.2 ⟨c₁, (mem_run_rep_char hallows).2
          ⟨1, Nat.zero_le 1, hone, hreads⟩, hc'⟩⟩
  rw [hatom, h.read, h c₀]
  constructor
  · intro hread
    rcases hread with hfits | ⟨x, s, hrest, hx, hfits⟩
    · exact .skip hc hk hfits
    · rw [hrest]
      exact .one hc hx hfits
  · intro hfits
    generalize c₀.rest = rest at hfits ⊢
    cases hfits with
    | run => exact absurd rfl hc
    | @one _ _ x _ s _ hx hfits => exact Or.inr ⟨x, s, rfl, hx, hfits⟩
    | skip _ _ hfits => exact Or.inl hfits

end

/-- What is made of a pattern: an expression if it is readable, and nothing otherwise. -/
inductive Parses (p : JsString) : Except Thrown Regex → Prop
  | ok {r : Regex} (readable : Readable p) (reaches : Reaches r (marks p).2) : Parses p (.ok r)
  | error {e : Thrown} (unreadable : ¬Readable p) : Parses p (.error e)

theorem Parses.map {p q : JsString} {r : Except Thrown Regex} {f : Regex → Regex} (h : Parses q r)
    (hreadable : Readable p ↔ Readable q)
    (hreaches : ∀ r, (marks q).1 = 0 → Reaches r (marks q).2 → Reaches (f r) (marks p).2) :
    Parses p (r.map f) := by
  cases h with
  | ok readable reaches => exact .ok (hreadable.2 readable) (hreaches _ readable.first reaches)
  | error unreadable => exact .error fun h => unreadable (hreadable.1 h)

theorem wildcardParse_parses (p : JsString) : Parses p (wildcardParse p) := by
  fun_induction wildcardParse p with
  | case1 => exact .ok ⟨rfl, fun a ha => by cases ha⟩ reaches_eol
  | case2 rest star ih =>
      refine ih.map ?_ fun r _ h => ?_
      · rw [readable_cons (by decide), marks_mark, readable_iff, if_pos rfl]
        simp
      · rw [marks_plain (by decide), marks_mark]
        exact h.line false _
  | case3 star rest hrest ih =>
      refine ih.map ?_ fun r _ h => ?_
      · rw [readable_cons (by decide), readable_iff, marks_first hrest]
        simp
      · rw [marks_plain (by decide)]
        exact h.line true _
  | case4 c rest hstar hmark =>
      have hc : c = 63 := by simpa [isQuantifier] using hmark
      refine .error fun h => ?_
      have hfirst := h.first
      rw [hc, marks_mark] at hfirst
      cases hfirst
  | case5 c hstar hplain opt rest ih =>
      have hc : c ≠ 63 := by simpa [isQuantifier] using hplain
      refine ih.map ?_ fun r _ h => ?_
      · rw [readable_cons hc, marks_mark, marks_mark, readable_iff, if_neg hstar]
        simp
      · rw [marks_plain hc, marks_mark, marks_mark]
        exact h.maybe hstar (by omega) false
  | case6 c hstar hplain opt rest hrest ih =>
      have hc : c ≠ 63 := by simpa [isQuantifier] using hplain
      have hfirst : (marks rest).1 = 0 := marks_first fun q hq => hrest q hq
      refine ih.map ?_ fun r _ h => ?_
      · rw [readable_cons hc, marks_mark, readable_iff, hfirst, if_neg hstar]
        simp
      · rw [marks_plain hc, marks_mark]
        exact h.maybe hstar (by omega) true
  | case7 c hstar hplain rest hrest hrest' ih =>
      have hc : c ≠ 63 := by simpa [isQuantifier] using hplain
      refine ih.map ?_ fun r hfirst h => ?_
      · rw [readable_cons hc, readable_iff, marks_first hrest', if_neg hstar]
        simp
      · rw [marks_plain hc, hfirst]
        exact h.one hstar

theorem test_bol {r : Regex} {as : List (ℕ × ℕ)} (h : Reaches r as) (s : JsString) :
    (Regex.seq .bol r).test s = true ↔ Fits as s := by
  rw [test_bol_iff]
  exact h ⟨[], s, fun _ => none⟩

/-- The expression of a pattern. -/
theorem wildcardToRegex_spec (p : JsString) :
    (∃ e, wildcardToRegex p = .error e ∧ ¬Readable p) ∨
      ∃ r, wildcardToRegex p = .ok r ∧ Readable p ∧ ∀ s, r.test s = true ↔ Fits (marks p).2 s := by
  have hparses := wildcardParse_parses p
  unfold wildcardToRegex
  cases hparse : wildcardParse p with
  | error e =>
      rw [hparse] at hparses
      cases hparses with
      | error unreadable => exact Or.inl ⟨e, rfl, unreadable⟩
  | ok r =>
      rw [hparse] at hparses
      cases hparses with
      | ok readable reaches => exact Or.inr ⟨.seq .bol r, rfl, readable, test_bol reaches⟩

/-! ### The loop over the patterns -/

/-- Every pattern up to the first that fits is readable. -/
def Tried (s : JsString) : List JsString → Prop
  | [] => True
  | p :: ps => Readable p ∧ (Fits (marks p).2 s ∨ Tried s ps)

/-- The loop answers if the patterns it tries are readable, and then whether one of them fits. -/
theorem bannedByPattern_spec (id : String) (ps : List JsString) :
    ((∃ found, bannedByPattern id ps = .ok found) ↔ Tried (js id) ps) ∧
      ∀ found, bannedByPattern id ps = .ok found →
        (found.isSome = true ↔ ∃ p ∈ ps, Fits (marks p).2 (js id)) := by
  induction ps with
  | nil =>
      refine ⟨⟨fun _ => trivial, fun _ => ⟨none, rfl⟩⟩, fun found h => ?_⟩
      cases h
      simp
  | cons p ps ih =>
      obtain ⟨ihok, ihfound⟩ := ih
      rcases wildcardToRegex_spec p with ⟨e, herror, hunreadable⟩ | ⟨r, hr, hreadable, htest⟩
      · have hthrows : bannedByPattern id (p :: ps) = .error e := by
          rw [bannedByPattern, herror]
          rfl
        rw [hthrows]
        refine ⟨⟨fun h => ?_, fun h => absurd h.1 hunreadable⟩, fun found h => by cases h⟩
        obtain ⟨found, h⟩ := h
        cases h
      by_cases hfits : Fits (marks p).2 (js id)
      · have hstops : bannedByPattern id (p :: ps) = .ok (some p) := by
          rw [bannedByPattern, hr]
          exact if_pos ((htest _).2 hfits)
        rw [hstops]
        refine ⟨⟨fun _ => ⟨hreadable, Or.inl hfits⟩, fun _ => ⟨some p, rfl⟩⟩, fun found h => ?_⟩
        cases h
        exact ⟨fun _ => ⟨p, List.mem_cons_self, hfits⟩, fun _ => rfl⟩
      · have hgoes : bannedByPattern id (p :: ps) = bannedByPattern id ps := by
          rw [bannedByPattern, hr]
          exact if_neg fun h => hfits ((htest _).1 h)
        rw [hgoes, ihok]
        refine ⟨⟨fun h => ⟨hreadable, Or.inr h⟩, fun h => h.2.resolve_left hfits⟩, fun found h => ?_⟩
        rw [ihfound found h, List.exists_mem_cons_iff, or_iff_right hfits]

/-! ### Patterns that are read as globs -/

/-- The expression of a pattern says of a text what its glob says. -/
def ReadAsGlob (p s : JsString) : Prop :=
  ∃ r, wildcardToRegex p = .ok r ∧ (r.test s = true ↔ Glob p s)

theorem readAsGlob_iff {p s : JsString} :
    ReadAsGlob p s ↔ Readable p ∧ (Fits (marks p).2 s ↔ Glob p s) := by
  rcases wildcardToRegex_spec p with ⟨e, herror, hunreadable⟩ | ⟨r, hr, hreadable, htest⟩
  · constructor
    · intro h
      obtain ⟨r, hr, -⟩ := h
      rw [herror] at hr
      cases hr
    · exact fun h => absurd h.1 hunreadable
  · rw [← htest s]
    constructor
    · intro h
      obtain ⟨r', hr', hglob⟩ := h
      rw [hr] at hr'
      cases hr'
      exact ⟨hreadable, hglob⟩
    · exact fun h => ⟨r, hr, h.2⟩

/-- A text on one line that a glob matches fits the pattern. -/
theorem Glob.fits {p s : JsString} (h : Glob p s) (hs : OneLine s) (hp : 63 ∉ p) :
    Fits (marks p).2 s := by
  induction h with
  | nil => exact .nil
  | @run p s w rest ih =>
      rw [marks_plain (by decide)]
      exact .run (fun x hx => hs x (List.mem_append_left _ hx))
        (ih (fun x hx => hs x (List.mem_append_right _ hx)) fun h => hp (List.mem_cons_of_mem _ h))
  | @one c x p s hc hx rest ih =>
      have hmark : c ≠ 63 := fun h => hp (h ▸ List.mem_cons_self)
      rw [marks_plain hmark]
      exact .one hc hx (ih (fun y hy => hs y (List.mem_cons_of_mem _ hy))
        fun h => hp (List.mem_cons_of_mem _ h))

theorem glob_of_fits {p s : JsString} (h : Fits (marks p).2 s) (hp : 63 ∉ p) : Glob p s := by
  induction p generalizing s with
  | nil =>
      cases h
      exact .nil
  | cons c p ih =>
      have hmark : c ≠ 63 := fun h => hp (h ▸ List.mem_cons_self)
      have hrest : 63 ∉ p := fun h => hp (List.mem_cons_of_mem _ h)
      have hzero : (marks p).1 = 0 := by
        refine marks_first fun q hq => hrest ?_
        rw [hq]
        exact List.mem_cons_self
      rw [marks_plain hmark, hzero] at h
      cases h with
      | run hw rest => exact .run _ (ih rest hrest)
      | one hc hx rest => exact .one hc hx (ih rest hrest)
      | skip hc hk rest => exact absurd rfl hk

/-- A pattern without `?` says of a text on one line what its glob says. -/
theorem fits_iff_glob {p s : JsString} (hp : 63 ∉ p) (hs : OneLine s) :
    Fits (marks p).2 s ↔ Glob p s :=
  ⟨fun h => glob_of_fits h hp, fun h => h.fits hs hp⟩

/-! ### Texts on which a pattern goes wrong -/

theorem fits_bare (p : JsString) : Fits (marks p).2 (bare p) := by
  induction p with
  | nil => exact .nil
  | cons c p ih =>
      unfold bare at ih ⊢
      by_cases hmark : c = 63
      · rw [hmark, marks_mark, List.filter_cons_of_pos (by decide), List.filter_cons_of_neg (by decide)]
        exact ih
      rw [marks_plain hmark]
      by_cases hrun : c = 42
      · rw [hrun, List.filter_cons_of_neg (by decide)]
        exact Fits.run (w := []) (fun x hx => by cases hx) ih
      · have hkept : ((c :: p).filter fun c => c ≠ 42).filter (fun c => c ≠ 63) =
            c :: (p.filter fun c => c ≠ 42).filter (fun c => c ≠ 63) := by
          simp [hrun, hmark]
        rw [hkept]
        exact .one hrun rfl ih

theorem Glob.length_le {p s : JsString} (h : Glob p s) :
    (p.filter fun c => c ≠ 42).length ≤ s.length := by
  induction h with
  | nil => exact Nat.le_refl 0
  | run w rest ih =>
      rw [List.filter_cons_of_neg (by decide), List.length_append]
      omega
  | @one c x p s hc hx rest ih =>
      have hkept : (c :: p).filter (fun c => c ≠ 42) = c :: p.filter fun c => c ≠ 42 := by
        simp [hc]
      rw [hkept, List.length_cons, List.length_cons]
      omega

/-- A pattern with a `?` does not match its bare characters as a glob. -/
theorem not_glob_bare {p : JsString} (h : 63 ∈ p) : ¬Glob p (bare p) := by
  intro hglob
  have hlength := hglob.length_le
  have hmem : 63 ∈ p.filter fun c => c ≠ 42 := List.mem_filter.2 ⟨h, by decide⟩
  have hshort : (bare p).length < (p.filter fun c => c ≠ 42).length :=
    List.length_filter_lt_length_iff_exists.2 ⟨63, hmem, by decide⟩
  omega

theorem glob_breaks (n : ℕ) (p : JsString) : Glob p (breaks n p) := by
  induction p with
  | nil => exact .nil
  | cons c p ih =>
      unfold breaks at ih ⊢
      rw [List.flatMap_cons]
      split
      case isTrue h =>
        rw [h]
        exact .run _ ih
      case isFalse h => exact .one h rfl ih

theorem Fits.breaks_le {as : List (ℕ × ℕ)} {s : JsString} (h : Fits as s) :
    s.countP isLineTerminator ≤ as.length := by
  induction h with
  | nil => exact Nat.le_refl 0
  | run hw rest ih =>
      have hnone := List.countP_eq_zero.2 fun x hx => Bool.eq_false_iff.1 (hw x hx)
      rw [List.countP_append, hnone, List.length_cons]
      omega
  | @one c k x as s hc hx rest ih =>
      have hle : (x :: s).countP isLineTerminator ≤ s.countP isLineTerminator + 1 := by
        rw [List.countP_cons]
        split <;> omega
      rw [List.length_cons]
      omega
  | skip hc hk rest ih =>
      rw [List.length_cons]
      omega

/-- A pattern with a `*` misses a text with line breaks. -/
theorem not_fits_breaks {p : JsString} (h : 42 ∈ p) : ¬Fits (marks p).2 (breaks (p.length + 1) p) := by
  intro hfits
  have hle := hfits.breaks_le
  have hmarks := length_marks p
  have hbreaks := le_countP_breaks (p.length + 1) h
  omega

/-! ### Banned models -/

/-- `modelBanned` answers, and rejects the model exactly if its kind is banned or some pattern matches
its id as a glob. -/
def BannedAsGlobs (model : ModelRow) (settings : FirmSettings) : Prop :=
  ∃ answer, modelBanned model settings = .ok answer ∧
    (answer.isSome = true ↔ settings.banned_provider_kinds.contains model.providerKind.text = true ∨
      ∃ p ∈ settings.banned_model_patterns, Glob p (js model.canonicalId))

/-- The patterns can be read as far as they are tried, and their marks and line breaks make no
difference to whether one of them matches. -/
def PatternsAgree (id : String) (ps : List JsString) : Prop :=
  Tried (js id) ps ∧ ((∃ p ∈ ps, Fits (marks p).2 (js id)) ↔ ∃ p ∈ ps, Glob p (js id))

theorem bannedByPattern_agrees {id : String} {ps : List JsString} :
    (∃ found, bannedByPattern id ps = .ok found ∧
      (found.isSome = true ↔ ∃ p ∈ ps, Glob p (js id))) ↔ PatternsAgree id ps := by
  obtain ⟨hok, hfound⟩ := bannedByPattern_spec id ps
  constructor
  · intro h
    obtain ⟨found, hrun, hglob⟩ := h
    exact ⟨hok.1 ⟨found, hrun⟩, (hfound found hrun).symm.trans hglob⟩
  · intro h
    obtain ⟨found, hrun⟩ := hok.2 h.1
    exact ⟨found, hrun, (hfound found hrun).trans h.2⟩

theorem bannedAsGlobs_iff {model : ModelRow} {settings : FirmSettings} :
    BannedAsGlobs model settings ↔
      settings.banned_provider_kinds.contains model.providerKind.text = true ∨
        PatternsAgree model.canonicalId settings.banned_model_patterns := by
  unfold BannedAsGlobs modelBanned
  by_cases hkind : settings.banned_provider_kinds.contains model.providerKind.text = true
  · rw [if_pos hkind]
    exact ⟨fun _ => Or.inl hkind, fun _ => ⟨_, rfl, fun _ => Or.inl hkind, fun _ => rfl⟩⟩
  rw [if_neg hkind, or_iff_right hkind, ← bannedByPattern_agrees]
  simp only [or_iff_right hkind, bind, Except.bind]
  cases bannedByPattern model.canonicalId settings.banned_model_patterns with
  | error e => simp
  | ok found => cases found <;> simp [pure, Except.pure]

theorem patternsAgree_of_plain {id : String} {ps : List JsString} (hps : ∀ p ∈ ps, 63 ∉ p)
    (hid : OneLine (js id)) : PatternsAgree id ps := by
  have hagree : ∀ p ∈ ps, (Fits (marks p).2 (js id) ↔ Glob p (js id)) :=
    fun p hp => fits_iff_glob (hps p hp) hid
  refine ⟨?_, exists_congr fun p => and_congr_right fun hp => hagree p hp⟩
  clear hagree
  induction ps with
  | nil => exact trivial
  | cons p ps ih =>
      obtain ⟨hp, hps⟩ := List.forall_mem_cons.1 hps
      exact ⟨readable_of_plain hp, Or.inr (ih hps)⟩

/-- **When banned patterns are globs.**  A pattern is read as its glob on every id exactly if it has
neither `?` nor `*`, and one without line breaks on every id without line breaks exactly if it has no
`?`; patterns without `?` agree with their globs on an id without line breaks.  `modelBanned` answers
as the globs say exactly when the kind is banned or the patterns agree with their globs on the id. -/
theorem banned_patterns_are_globs :
    (∀ p, (∀ s, ReadAsGlob p s) ↔ 63 ∉ p ∧ 42 ∉ p) ∧
    (∀ p, OneLine p → ((∀ s, OneLine s → ReadAsGlob p s) ↔ 63 ∉ p)) ∧
    (∀ (id : String) (ps : List JsString), (∀ p ∈ ps, 63 ∉ p) → OneLine (js id) →
      PatternsAgree id ps) ∧
    ∀ (model : ModelRow) (settings : FirmSettings), BannedAsGlobs model settings ↔
      settings.banned_provider_kinds.contains model.providerKind.text = true ∨
        PatternsAgree model.canonicalId settings.banned_model_patterns := by
  have hmark : ∀ {p}, ReadAsGlob p (bare p) → 63 ∉ p := by
    intro p h hmem
    exact not_glob_bare hmem ((readAsGlob_iff.1 h).2.1 (fits_bare p))
  refine ⟨?_, ?_, fun _ _ => patternsAgree_of_plain, fun _ _ => bannedAsGlobs_iff⟩
  · intro p
    constructor
    · intro h
      refine ⟨hmark (h _), fun hmem => not_fits_breaks hmem ?_⟩
      exact (readAsGlob_iff.1 (h _)).2.2 (glob_breaks _ p)
    · intro h s
      obtain ⟨hplain, hrun⟩ := h
      refine readAsGlob_iff.2 ⟨readable_of_plain hplain, fun h => glob_of_fits h hplain, ?_⟩
      intro hglob
      induction hglob with
      | nil => exact .nil
      | run w rest => exact absurd List.mem_cons_self hrun
      | @one c x p s hc hx rest ih =>
          have hc' : c ≠ 63 := fun h => hplain (h ▸ List.mem_cons_self)
          rw [marks_plain hc']
          exact .one hc hx (ih (fun h => hplain (List.mem_cons_of_mem _ h))
            fun h => hrun (List.mem_cons_of_mem _ h))
  · intro p hp
    constructor
    · exact fun h => hmark (h _ fun x hx => hp x (List.mem_of_mem_filter (List.mem_of_mem_filter hx)))
    · exact fun h s hs => readAsGlob_iff.2 ⟨readable_of_plain h, fits_iff_glob h hs⟩

end

/-- **A pattern that begins with `?` stops every request.** -/
theorem mark_throws : letI := Sample.platform
    ¬∀ (model : ModelRow) (settings : FirmSettings), BannedAsGlobs model settings := by
  let := Sample.platform
  intro h
  obtain ⟨answer, hanswer, -⟩ := h Sample.cloudModel { banned_model_patterns := [js "?-preview"] }
  have hthrows : modelBanned Sample.cloudModel { banned_model_patterns := [js "?-preview"] } =
      .error nothingToRepeat := rfl
  rw [hthrows] at hanswer
  cases hanswer

end VibeRouter
