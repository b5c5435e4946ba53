import VibeRouter.Lib.RegexSearch

/-! # The shapes of matches

Expressions that read a fixed text in one way (`run_times`, `run_notBehind`, …), the texts that a
repeated class reads (`mem_run_rep_char`), and the characters a match consists of (`Found.within`). -/

namespace Regex

/-! ### Reading what stands there -/

theorem advance_append {before ds post : JsString} {groups : ℕ → Option JsString} :
    (⟨before, ds ++ post, groups⟩ : Cursor).advance ds.length =
      ⟨ds.reverse ++ before, post, groups⟩ := by
  unfold Cursor.advance
  rw [List.take_left, List.drop_left]

theorem run_notBehind {p : ℕ → Bool} {c : Cursor} (h : ∀ x ∈ c.before.head?, p x = false) :
    run (notBehind p) c = [c] := by
  rw [run]
  cases hbefore : c.before with
  | nil => rfl
  | cons x xs =>
      have hx := h x (by rw [hbefore]; rfl)
      dsimp only
      rw [hx]
      rfl

theorem run_notAhead {p : ℕ → Bool} {c : Cursor} (h : ∀ x ∈ c.rest.head?, p x = false) :
    run (notAhead p) c = [c] := by
  rw [run]
  cases hrest : c.rest with
  | nil => rfl
  | cons x xs =>
      have hx := h x (by rw [hrest]; rfl)
      dsimp only
      rw [hx]
      rfl

theorem mem_run_notBehind {p : ℕ → Bool} {c c' : Cursor} (h : c' ∈ run (notBehind p) c) :
    c' = c ∧ ∀ x ∈ c.before.head?, p x = false := by
  rw [run] at h
  cases hbefore : c.before with
  | nil =>
      rw [hbefore] at h
      exact ⟨List.mem_singleton.1 h, fun x hx => by cases hx⟩
  | cons x xs =>
      rw [hbefore] at h
      dsimp only at h
      split at h
      · cases h
      case isFalse hx =>
        refine ⟨List.mem_singleton.1 h, fun y hy => ?_⟩
        cases hy
        exact Bool.eq_false_iff.2 hx

theorem mem_run_notAhead {p : ℕ → Bool} {c c' : Cursor} (h : c' ∈ run (notAhead p) c) :
    c' = c ∧ ∀ x ∈ c.rest.head?, p x = false := by
  rw [run] at h
  cases hrest : c.rest with
  | nil =>
      rw [hrest] at h
      exact ⟨List.mem_singleton.1 h, fun x hx => by cases hx⟩
  | cons x xs =>
      rw [hrest] at h
      dsimp only at h
      split at h
      · cases h
      case isFalse hx =>
        refine ⟨List.mem_singleton.1 h, fun y hy => ?_⟩
        cases hy
        exact Bool.eq_false_iff.2 hx

/-! ### Repeated classes -/

/-- The bound of a repetition allows `n` iterations. -/
def Allows (max : Option ℕ) (n : ℕ) : Prop := ∀ k ∈ max, n ≤ k

theorem Allows.less {max : Option ℕ} {n : ℕ} (h : Allows max (n + 1)) : Allows (less max) n := by
  cases max with
  | none => exact fun k hk => by cases hk
  | some m =>
      intro k hk
      cases hk
      have := h m rfl
      omega

theorem Allows.succ {max : Option ℕ} {n : ℕ} (h : Allows (Regex.less max) n) (hmax : max ≠ some 0) :
    Allows max (n + 1) := by
  cases max with
  | none => exact fun k hk => by cases hk
  | some m =>
      intro k hk
      cases hk
      have := h (m - 1) rfl
      have : m ≠ 0 := fun h => hmax (congrArg some h)
      omega

/-- `c'` is reached from `c` by reading `n` characters in `p`. -/
def Reads (p : ℕ → Bool) (n : ℕ) (c c' : Cursor) : Prop :=
  ∃ ds rest, c.rest = ds ++ rest ∧ ds.length = n ∧ (∀ x ∈ ds, p x = true) ∧ c' = c.advance n

theorem reads_zero {p : ℕ → Bool} {c c' : Cursor} : Reads p 0 c c' ↔ c' = c := by
  constructor
  · intro h
    obtain ⟨ds, rest, -, -, -, rfl⟩ := h
    exact Cursor.advance_zero c
  · intro h
    exact ⟨[], c.rest, rfl, rfl, by simp, h.trans (Cursor.advance_zero c).symm⟩

theorem reads_succ {p : ℕ → Bool} {n : ℕ} {c c' : Cursor} :
    Reads p (n + 1) c c' ↔ ∃ c₁ ∈ run (char p) c, Reads p n c₁ c' := by
  rw [run_char]
  constructor
  · intro h
    obtain ⟨ds, rest, hsplit, hlength, hall, rfl⟩ := h
    cases ds with
    | nil => cases hlength
    | cons d ds =>
        have hrest : (c.advance 1).rest = ds ++ rest := by
          rw [Cursor.rest_advance, hsplit]
          rfl
        rw [hsplit]
        refine ⟨c.advance 1, ?_, ds, rest, hrest, Nat.succ.inj hlength,
          fun x hx => hall x (List.mem_cons_of_mem _ hx), ?_⟩
        · have hd := hall d List.mem_cons_self
          show _ ∈ (if p d then _ else _)
          rw [if_pos hd]
          exact List.mem_singleton_self _
        · rw [Cursor.advance_advance, Nat.add_comm]
  · intro h
    obtain ⟨c₁, hc₁, ds, rest, hsplit, hlength, hall, rfl⟩ := h
    cases hrest : c.rest with
    | nil =>
        rw [hrest] at hc₁
        cases hc₁
    | cons x xs =>
        rw [hrest] at hc₁
        dsimp only at hc₁
        split at hc₁
        case isTrue hx =>
          rw [List.mem_singleton.1 hc₁] at hsplit ⊢
          rw [Cursor.rest_advance, hrest] at hsplit
          replace hsplit : xs = ds ++ rest := hsplit
          refine ⟨x :: ds, rest, by rw [hrest, hsplit]; rfl, by rw [List.length_cons, hlength], ?_, ?_⟩
          · intro y hy
            rcases List.mem_cons.1 hy with rfl | hy
            · exact hx
            · exact hall y hy
          · rw [Cursor.advance_advance, Nat.add_comm]
        case isFalse => cases hc₁

/-- `c'` is reached from `c` by `n` iterations of a body. -/
def Steps (m : Cursor → List Cursor) : ℕ → Cursor → Cursor → Prop
  | 0, c, c' => c' = c
  | n + 1, c, c' => ∃ c₁ ∈ m c, Steps m n c₁ c'

theorem steps_char {p : ℕ → Bool} {n : ℕ} {c c' : Cursor} :
    Steps (run (char p)) n c c' ↔ Reads p n c c' := by
  induction n generalizing c with
  | zero => exact reads_zero.symm
  | succ n ih =>
      rw [reads_succ, Steps]
      simp only [ih]

/-- A repetition iterates a body that consumes something as often as its bounds allow. -/
theorem mem_iter {m : Cursor → List Cursor} (hm : ∀ c, ∀ c' ∈ m c, c'.rest.length < c.rest.length)
    {greedy : Bool} {fuel least : ℕ} {max : Option ℕ} {c c' : Cursor}
    (hfuel : least + c.rest.length < fuel) (hmax : Allows max least) :
    c' ∈ iter m greedy fuel least max c ↔ ∃ n, least ≤ n ∧ Allows max n ∧ Steps m n c c' := by
  induction fuel generalizing least max c with
  | zero => omega
  | succ fuel ih =>
      cases least with
      | succ least =>
          rw [iter, List.mem_flatMap]
          constructor
          · intro h
            obtain ⟨c₁, hc₁, hc'⟩ := h
            have hlength := hm c c₁ hc₁
            obtain ⟨n, hn, hallows, hsteps⟩ := (ih (by omega) hmax.less).1 hc'
            have hne : max ≠ some 0 := by
              intro h
              have := hmax 0 h
              omega
            exact ⟨n + 1, by omega, hallows.succ hne, c₁, hc₁, hsteps⟩
          · intro h
            obtain ⟨n, hn, hallows, hsteps⟩ := h
            obtain ⟨k, rfl⟩ : ∃ k, n = k + 1 := ⟨n - 1, by omega⟩
            obtain ⟨c₁, hc₁, hsteps⟩ := hsteps
            have hlength := hm c c₁ hc₁
            exact ⟨c₁, hc₁, (ih (by omega) hmax.less).2 ⟨k, by omega, hallows.less, hsteps⟩⟩
      | zero =>
          rw [iter]
          split
          case isTrue hzero =>
            rw [List.mem_singleton]
            constructor
            · intro h
              exact ⟨0, Nat.le_refl 0, hmax, h⟩
            · intro h
              obtain ⟨n, -, hallows, hsteps⟩ := h
              have hn : n = 0 := Nat.le_zero.1 (hallows 0 hzero)
              rw [hn] at hsteps
              exact hsteps
          case isFalse hzero =>
            have hnone : Allows (less max) 0 := fun k _ => Nat.zero_le k
            have hboth : ∀ more : List Cursor,
                c' ∈ (if greedy then more ++ [c] else c :: more) ↔ c' ∈ more ∨ c' = c := by
              intro more
              cases greedy with
              | true => rw [if_pos rfl, List.mem_append, List.mem_singleton]
              | false => rw [if_neg Bool.false_ne_true, List.mem_cons, or_comm]
            dsimp only
            rw [hboth, List.mem_flatMap]
            constructor
            · intro h
              rcases h with ⟨c₁, hc₁, hc'⟩ | h
              · replace hc₁ := (List.mem_filter.1 hc₁).1
                have hlength := hm c c₁ hc₁
                obtain ⟨n, hn, hallows, hsteps⟩ := (ih (by omega) hnone).1 hc'
                exact ⟨n + 1, by omega, hallows.succ hzero, c₁, hc₁, hsteps⟩
              · exact ⟨0, Nat.le_refl 0, hmax, h⟩
            · intro h
              obtain ⟨n, -, hallows, hsteps⟩ := h
              cases n with
              | zero => exact Or.inr hsteps
              | succ n =>
                  obtain ⟨c₁, hc₁, hsteps⟩ := hsteps
                  have hlength := hm c c₁ hc₁
                  refine Or.inl ⟨c₁, List.mem_filter.2 ⟨hc₁, decide_eq_true hlength⟩, ?_⟩
                  exact (ih (by omega) hnone).2 ⟨n, Nat.zero_le n, hallows.less, hsteps⟩

/-- An expression that matches no empty text, repeated. -/
theorem mem_run_rep {r : Regex} (hr : 0 < r.minLen) {least : ℕ} {max : Option ℕ} {greedy : Bool}
    {c c' : Cursor} (hmax : Allows max least) :
    c' ∈ run (rep r least max greedy) c ↔ ∃ n, least ≤ n ∧ Allows max n ∧ Steps (run r) n c c' := by
  rw [run]
  refine mem_iter (fun c₁ c₂ hc₂ => ?_) (Nat.lt_succ_self _) hmax
  have := run_minLen r c₁ c₂ hc₂
  omega

/-- A class repeated reads as many characters as its bounds allow. -/
theorem mem_run_rep_char {p : ℕ → Bool} {least : ℕ} {max : Option ℕ} {greedy : Bool}
    {c c' : Cursor} (hmax : Allows max least) :
    c' ∈ run (rep (char p) least max greedy) c ↔ ∃ n, least ≤ n ∧ Allows max n ∧ Reads p n c c' := by
  have hchar : 0 < (char p).minLen := Nat.one_pos
  rw [mem_run_rep hchar hmax]
  simp only [steps_char]

theorem mem_run_times {p : ℕ → Bool} {n : ℕ} {c c' : Cursor} :
    c' ∈ run (times (char p) n) c ↔ Reads p n c c' := by
  have hallows : Allows (some n) n := fun k hk => by cases hk; exact Nat.le_refl n
  unfold times
  rw [mem_run_rep_char hallows]
  constructor
  · intro h
    obtain ⟨k, hk, hmax, hreads⟩ := h
    obtain rfl := Nat.le_antisymm (hmax n rfl) hk
    exact hreads
  · intro h
    exact ⟨n, Nat.le_refl n, hallows, h⟩

/-- A class repeated a fixed number of times reads in one way. -/
theorem run_times {p : ℕ → Bool} {ds : JsString} {before post : JsString}
    {groups : ℕ → Option JsString} {n : ℕ} (hlength : ds.length = n) (hall : ∀ x ∈ ds, p x = true) :
    run (times (char p) n) ⟨before, ds ++ post, groups⟩ = [⟨ds.reverse ++ before, post, groups⟩] := by
  have hiter : ∀ (fuel : ℕ) (ds before : JsString), ds.length < fuel → (∀ x ∈ ds, p x = true) →
      iter (run (char p)) true fuel ds.length (some ds.length) ⟨before, ds ++ post, groups⟩ =
        [⟨ds.reverse ++ before, post, groups⟩] := by
    intro fuel
    induction fuel with
    | zero => exact fun ds before h => by omega
    | succ fuel ih =>
        intro ds before hfuel hall
        cases ds with
        | nil =>
            show iter _ _ (fuel + 1) 0 (some 0) _ = _
            rw [iter, if_pos rfl]
            rfl
        | cons d ds =>
            have hd := hall d List.mem_cons_self
            have hone : run (char p) ⟨before, d :: ds ++ post, groups⟩ =
                [⟨d :: before, ds ++ post, groups⟩] := by
              rw [run_char]
              show (if p d then _ else _) = _
              rw [if_pos hd]
              rfl
            rw [List.length_cons] at hfuel ⊢
            rw [iter, hone, List.flatMap_singleton]
            rw [show less (some (ds.length + 1)) = some ds.length from rfl,
              ih ds (d :: before) (by omega) fun x hx => hall x (List.mem_cons_of_mem _ hx)]
            simp
  subst hlength
  unfold times
  rw [run]
  exact hiter _ ds before (by omega) hall

/-! ### Groups and literal texts -/

/-- `c` with a captured text. -/
def Cursor.capture (c : Cursor) (n : ℕ) (s : JsString) : Cursor :=
  { c with groups := fun k => if k = n then some s else c.groups k }

theorem between_append {before ds post before' : JsString} {groups groups' : ℕ → Option JsString} :
    (⟨before, ds ++ post, groups⟩ : Cursor).between ⟨before', post, groups'⟩ = ds := by
  unfold Cursor.between
  have hlength : (ds ++ post).length - post.length = ds.length := by
    rw [List.length_append]
    omega
  dsimp only
  rw [hlength, List.take_left]

/-- A group captures what it reads. -/
theorem run_group {r : Regex} {before before' ds post : JsString} {groups groups' : ℕ → Option JsString}
    (n : ℕ) (h : run r ⟨before, ds ++ post, groups⟩ = [⟨before', post, groups'⟩]) :
    run (group n r) ⟨before, ds ++ post, groups⟩ =
      [(⟨before', post, groups'⟩ : Cursor).capture n ds] := by
  rw [run, h, List.map_singleton, between_append]
  rfl

theorem run_literal_of (s before post : JsString) (groups : ℕ → Option JsString) :
    run (literal s) ⟨before, s ++ post, groups⟩ = [⟨s.reverse ++ before, post, groups⟩] := by
  rw [run_literal, if_pos (List.prefix_append s post), advance_append]

theorem run_backref {n : ℕ} {s before post : JsString} {groups : ℕ → Option JsString}
    (h : groups n = some s) :
    run (backref n) ⟨before, s ++ post, groups⟩ = [⟨s.reverse ++ before, post, groups⟩] := by
  rw [run]
  dsimp only
  rw [h]
  dsimp only
  rw [if_pos (List.prefix_append s post), advance_append]

theorem run_char_of {p : ℕ → Bool} {x : ℕ} {before post : JsString} {groups : ℕ → Option JsString}
    (h : p x = true) : run (char p) ⟨before, x :: post, groups⟩ = [⟨x :: before, post, groups⟩] := by
  rw [run_char]
  dsimp only
  rw [if_pos h]
  rfl

theorem mem_run_seq {r s : Regex} {c c' : Cursor} :
    c' ∈ run (seq r s) c ↔ ∃ c₁ ∈ run r c, c' ∈ run s c₁ := by
  rw [run, List.mem_flatMap]

theorem mem_run_group {n : ℕ} {r : Regex} {c c' : Cursor} :
    c' ∈ run (group n r) c ↔ ∃ c₁ ∈ run r c, c' = c₁.capture n (c.between c₁) := by
  rw [run, List.mem_map]
  constructor
  · intro h
    obtain ⟨c₁, hc₁, rfl⟩ := h
    exact ⟨c₁, hc₁, rfl⟩
  · intro h
    obtain ⟨c₁, hc₁, rfl⟩ := h
    exact ⟨c₁, hc₁, rfl⟩

theorem mem_run_char {p : ℕ → Bool} {c c' : Cursor} (h : c' ∈ run (char p) c) :
    ∃ x, c.rest = x :: c'.rest ∧ p x = true ∧ c' = ⟨x :: c.before, c'.rest, c.groups⟩ := by
  obtain ⟨before, rest, groups⟩ := c
  rw [run_char] at h
  cases rest with
  | nil => cases h
  | cons x xs =>
      dsimp only at h
      split at h
      case isTrue hx =>
        obtain rfl := List.mem_singleton.1 h
        exact ⟨x, rfl, hx, rfl⟩
      case isFalse => cases h

theorem mem_run_backref {n : ℕ} {s : JsString} {c c' : Cursor} (hs : c.groups n = some s)
    (h : c' ∈ run (backref n) c) : c.rest = s ++ c'.rest ∧ c'.groups = c.groups := by
  rw [run, hs] at h
  dsimp only at h
  split at h
  case isTrue hprefix =>
    obtain ⟨rest, hrest⟩ := hprefix
    rw [List.mem_singleton.1 h]
    refine ⟨?_, rfl⟩
    rw [Cursor.rest_advance, ← hrest, List.drop_left]
  case isFalse => cases h

/-- Reading `n` characters, with the text read. -/
theorem Reads.split {p : ℕ → Bool} {n : ℕ} {c c' : Cursor} (h : Reads p n c c') :
    ∃ ds, c.rest = ds ++ c'.rest ∧ ds.length = n ∧ (∀ x ∈ ds, p x = true) ∧
      c'.groups = c.groups := by
  obtain ⟨ds, rest, hsplit, hlength, hall, rfl⟩ := h
  refine ⟨ds, ?_, hlength, hall, rfl⟩
  rw [Cursor.rest_advance, hsplit, ← hlength, List.drop_left]

/-- `p?` takes the character if it can. -/
theorem run_opt_char (p : ℕ → Bool) (c : Cursor) :
    run (opt (char p)) c = match c.rest with
      | x :: _ => if p x then [c.advance 1, c] else [c]
      | [] => [c] := by
  have hstop : ∀ fuel c', iter (run (char p)) true (fuel + 1) 0 (some 0) c' = [c'] := by
    intro fuel c'
    rw [iter, if_pos rfl]
  unfold opt
  rw [run, Nat.zero_add, iter, run_char]
  dsimp only
  rw [if_neg (by simp), if_pos rfl]
  cases hrest : c.rest with
  | nil => rfl
  | cons x xs =>
      dsimp only
      split
      · have hshort : (c.advance 1).rest.length < (x :: xs).length := by
          rw [Cursor.rest_advance, hrest]
          exact Nat.lt_succ_self _
        have hkeep : [c.advance 1].filter (fun c' => c'.rest.length < (x :: xs).length) =
            [c.advance 1] := List.filter_cons_of_pos (decide_eq_true hshort)
        rw [hkeep, List.flatMap_singleton]
        have hmore := hstop xs.length (c.advance 1)
        exact congrArg (· ++ [c]) hmore
      · rfl

/-! ### The longest match -/

/-- The longer matches come first. -/
def LongestFirst (cs : List Cursor) : Prop := cs.Pairwise fun a b => a.rest.length ≤ b.rest.length

theorem LongestFirst.flatMap {cs : List Cursor} {f : Cursor → List Cursor}
    (hf : ∀ c ∈ cs, LongestFirst (f c))
    (hcs : cs.Pairwise fun a b => ∀ x ∈ f a, ∀ y ∈ f b, x.rest.length ≤ y.rest.length) :
    LongestFirst (cs.flatMap f) := List.pairwise_flatMap.2 ⟨hf, hcs⟩

theorem LongestFirst.head_le {cs : List Cursor} (h : LongestFirst cs) {c : Cursor}
    (hc : cs.head? = some c) {c' : Cursor} (hc' : c' ∈ cs) : c.rest.length ≤ c'.rest.length := by
  cases cs with
  | nil => cases hc'
  | cons a as =>
      obtain rfl := Option.some.inj hc
      rcases List.mem_cons.1 hc' with rfl | hc'
      · exact Nat.le_refl _
      · exact (List.pairwise_cons.1 h).1 c' hc'

/-- A repetition whose body can only be iterated after its first choice finds the longest match
first. -/
theorem iter_longestFirst {m : Cursor → List Cursor}
    (hshort : ∀ c, ∀ c' ∈ m c, c'.rest.length < c.rest.length)
    (hm : ∀ c, (m c).Pairwise fun a b => a.rest.length ≤ b.rest.length ∧ m b = [])
    (fuel least : ℕ) (max : Option ℕ) (c : Cursor) :
    LongestFirst (iter m true fuel least max c) := by
  have hle : ∀ fuel least max c, ∀ c' ∈ iter m true fuel least max c,
      c'.rest.length ≤ c.rest.length := by
    intro fuel least max c c' hc'
    have := iter_minLen (n := 0) (fun c c' hc' => Nat.le_of_lt (hshort c c' hc')) true fuel least max c c' hc'
    omega
  have hstuck : ∀ fuel least max c, m c = [] → ∀ c' ∈ iter m true fuel least max c, c' = c := by
    intro fuel least max c hc c' hc'
    cases fuel with
    | zero => cases hc'
    | succ fuel =>
        cases least with
        | succ least =>
            rw [iter, hc] at hc'
            cases hc'
        | zero =>
            rw [iter, hc] at hc'
            split at hc'
            · exact List.mem_singleton.1 hc'
            · exact List.mem_singleton.1 hc'
  induction fuel generalizing least max c with
  | zero => exact List.Pairwise.nil
  | succ fuel ih =>
      have hmore : ∀ (cs : List Cursor) least max, cs.Sublist (m c) →
          LongestFirst (cs.flatMap (iter m true fuel least max)) := by
        intro cs least max hcs
        refine LongestFirst.flatMap (fun c' _ => ih _ _ c') (((hm c).sublist hcs).imp ?_)
        intro a b h x hx y hy
        rw [hstuck _ _ _ b h.2 y hy]
        exact Nat.le_trans (hle _ _ _ a x hx) h.1
      cases least with
      | succ least =>
          rw [iter]
          exact hmore _ _ _ (List.Sublist.refl _)
      | zero =>
          rw [iter]
          split
          · exact List.pairwise_singleton _ _
          · dsimp only
            rw [if_pos rfl]
            refine List.pairwise_append.2
              ⟨hmore _ _ _ List.filter_sublist, List.pairwise_singleton _ _, fun a ha b hb => ?_⟩
            obtain ⟨c₁, hc₁, ha⟩ := List.mem_flatMap.1 ha
            have hfirst := Nat.le_of_lt (hshort c c₁ (List.mem_filter.1 hc₁).1)
            rw [List.mem_singleton.1 hb]
            exact Nat.le_trans (hle _ _ _ c₁ a ha) hfirst

/-! ### The characters of a match -/

/-- The expression reads characters in `p` only. -/
def Within (p : ℕ → Bool) : Regex → Prop
  | char q => ∀ x, q x = true → p x = true
  | seq r s => Within p r ∧ Within p s
  | alt r s => Within p r ∧ Within p s
  | rep r _ _ _ => Within p r
  | group _ r => Within p r
  | backref _ => False
  | _ => True

/-- `c'` is reached by reading characters in `p`. -/
def Over (p : ℕ → Bool) (c c' : Cursor) : Prop :=
  ∃ ds, c.rest = ds ++ c'.rest ∧ ∀ x ∈ ds, p x = true

theorem Over.refl (p : ℕ → Bool) (c : Cursor) : Over p c c := ⟨[], rfl, by simp⟩

theorem Over.trans {p : ℕ → Bool} {c₁ c₂ c₃ : Cursor} (h : Over p c₁ c₂) (h' : Over p c₂ c₃) :
    Over p c₁ c₃ := by
  obtain ⟨ds, hds, hall⟩ := h
  obtain ⟨es, hes, hall'⟩ := h'
  refine ⟨ds ++ es, by rw [hds, hes, List.append_assoc], fun x hx => ?_⟩
  rcases List.mem_append.1 hx with hx | hx
  · exact hall x hx
  · exact hall' x hx

theorem iter_over {p : ℕ → Bool} {m : Cursor → List Cursor} (hm : ∀ c, ∀ c' ∈ m c, Over p c c')
    (greedy : Bool) (fuel least : ℕ) (max : Option ℕ) (c c' : Cursor)
    (h : c' ∈ iter m greedy fuel least max c) : Over p c c' := by
  induction fuel generalizing least max c with
  | zero => cases h
  | succ fuel ih =>
      cases least with
      | succ least =>
          rw [iter] at h
          obtain ⟨c₁, hc₁, hc'⟩ := List.mem_flatMap.1 h
          exact (hm c c₁ hc₁).trans (ih _ _ _ hc')
      | zero =>
          have hmore : c' ∈ ((m c).filter fun c' => c'.rest.length < c.rest.length).flatMap
              (iter m greedy fuel 0 (less max)) → Over p c c' := by
            intro hc'
            obtain ⟨c₁, hc₁, hc'⟩ := List.mem_flatMap.1 hc'
            exact (hm c c₁ (List.mem_filter.1 hc₁).1).trans (ih _ _ _ hc')
          have hself : c' = c → Over p c c' := by
            intro h
            rw [h]
            exact Over.refl p c
          rw [iter] at h
          split at h
          · exact hself (List.mem_singleton.1 h)
          · dsimp only at h
            split at h
            · rcases List.mem_append.1 h with h | h
              · exact hmore h
              · exact hself (List.mem_singleton.1 h)
            · rcases List.mem_cons.1 h with h | h
              · exact hself h
              · exact hmore h

theorem run_over {p : ℕ → Bool} (r : Regex) (hr : Within p r) (c c' : Cursor) (h : c' ∈ run r c) :
    Over p c c' := by
  have hself : ∀ {c : Cursor}, c' ∈ [c] → Over p c c' := by
    intro c hc'
    rw [List.mem_singleton.1 hc']
    exact Over.refl p c
  induction r generalizing c c' with
  | eps => exact hself (by rwa [run] at h)
  | char q =>
      obtain ⟨before, rest, groups⟩ := c
      rw [run_char] at h
      cases rest with
      | nil => cases h
      | cons x xs =>
          dsimp only at h
          split at h
          case isTrue hx =>
            rw [List.mem_singleton.1 h]
            refine ⟨[x], rfl, fun y hy => ?_⟩
            rw [List.mem_singleton.1 hy]
            exact hr x hx
          case isFalse => cases h
  | seq r s ihr ihs =>
      rw [run] at h
      obtain ⟨c₁, hc₁, hc'⟩ := List.mem_flatMap.1 h
      refine (ihr hr.1 c c₁ hc₁ ?_).trans (ihs hr.2 c₁ c' hc' hself)
      intro c hc
      rw [List.mem_singleton.1 hc]
      exact Over.refl p c
  | alt r s ihr ihs =>
      rw [run] at h
      rcases List.mem_append.1 h with h | h
      · exact ihr hr.1 c c' h hself
      · exact ihs hr.2 c c' h hself
  | rep r least max greedy ih =>
      rw [run] at h
      refine iter_over (fun c₁ c₂ hc₂ => ih hr c₁ c₂ hc₂ ?_) greedy _ _ _ c c' h
      intro c hc
      rw [List.mem_singleton.1 hc]
      exact Over.refl p c
  | group n r ih =>
      rw [run] at h
      obtain ⟨c₁, hc₁, rfl⟩ := List.mem_map.1 h
      refine ih hr c c₁ hc₁ ?_
      intro c hc
      rw [List.mem_singleton.1 hc]
      exact Over.refl p c
  | backref n => exact hr.elim
  | bol | eol =>
      rw [run] at h
      split at h
      · exact hself h
      · cases h
  | notBehind q => exact hself (by rw [(mem_run_notBehind h).1]; exact List.mem_singleton_self c)
  | notAhead q => exact hself (by rw [(mem_run_notAhead h).1]; exact List.mem_singleton_self c)

/-- What is found consists of the characters that the expression reads. -/
theorem Found.within {p : ℕ → Bool} {r : Regex} (hr : Within p r) {text : JsString} {m : Match}
    (h : Found r text m) : ∀ x ∈ m.text, p x = true := by
  obtain ⟨pre, c, -, -, -, hexec⟩ := h
  obtain ⟨ds, hds, hall⟩ := run_over r hr _ c (List.mem_of_mem_head? hexec)
  have hds : m.text = ds := List.append_cancel_right hds
  rw [hds]
  exact hall

end Regex
