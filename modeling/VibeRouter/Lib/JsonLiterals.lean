import VibeRouter.Lib.JsonText

/-! # The strings of a JSON text

Every string of a parsed value is written in the text as a literal between quotes (`parse_strings`).
The literal consists of stretches that stand in the text as they are, and of escapes (`pieces`). -/

namespace Json

/-! ### The strings of a value -/

mutual

/-- The strings inside a value; the names of members are none of them. -/
def strings : Json → List JsString
  | str s => [s]
  | arr xs => stringsList xs
  | obj es => stringsEntries es
  | _ => []

def stringsList : List Json → List JsString
  | [] => []
  | x :: xs => strings x ++ stringsList xs

def stringsEntries : List (JsString × Json) → List JsString
  | [] => []
  | (_, v) :: es => strings v ++ stringsEntries es

end

theorem mem_stringsEntries {s : JsString} {es : List (JsString × Json)} :
    s ∈ stringsEntries es ↔ ∃ e ∈ es, s ∈ e.2.strings := by
  induction es with
  | nil => simp [stringsEntries]
  | cons e es ih => simp [stringsEntries, ih]

theorem mem_assign {κ ν : Type} [DecidableEq κ] {k : κ} {v : ν} {es : List (κ × ν)} {e : κ × ν}
    (h : e ∈ JsMap.assign k v es) : e = (k, v) ∨ e ∈ es := by
  induction es with
  | nil => exact Or.inl (List.mem_singleton.1 h)
  | cons e' es ih =>
      unfold JsMap.assign at h
      split at h
      · rcases List.mem_cons.1 h with h | h
        · exact Or.inl h
        · exact Or.inr (List.mem_cons_of_mem _ h)
      · rcases List.mem_cons.1 h with rfl | h
        · exact Or.inr List.mem_cons_self
        · exact (ih h).imp_right (List.mem_cons_of_mem _)

/-- The members of an object are among the members read for it. -/
theorem mem_foldl_assign {es done : List (JsString × Json)} {e : JsString × Json}
    (h : e ∈ es.foldl (fun es e => JsMap.assign e.1 e.2 es) done) : e ∈ done ∨ e ∈ es := by
  induction es generalizing done with
  | nil => exact Or.inl h
  | cons e' es ih =>
      rcases ih h with h | h
      · rcases mem_assign h with rfl | h
        · exact Or.inr List.mem_cons_self
        · exact Or.inl h
      · exact Or.inr (List.mem_cons_of_mem _ h)

/-! ### Literals -/

/-- The pieces of what stands between the quotes: each escape is a piece of its own. -/
def pieces : JsString → List JsString
  | [] => [[]]
  | 92 :: 117 :: a :: b :: c :: d :: rest => [] :: (hex4 a b c d).toList :: pieces rest
  | 92 :: e :: rest => [] :: (escape e).toList :: pieces rest
  | c :: rest => match pieces rest with
    | [] => [[c]]
    | p :: ps => (c :: p) :: ps

theorem pieces_plain {c : ℕ} (rest : JsString) (hslash : c ≠ 92) :
    (pieces (c :: rest)).flatten = c :: (pieces rest).flatten := by
  rw [pieces]
  · cases pieces rest with
    | nil => rfl
    | cons p ps => rfl
  · rintro a b c d e rfl
    exact absurd rfl hslash
  · rintro a b rfl
    exact absurd rfl hslash

theorem chars_pieces {t s b : JsString} (h : chars t = some (s, b)) :
    ∃ w, t = w ++ 34 :: b ∧ (pieces w).flatten = s := by
  induction hn : t.length using Nat.strong_induction_on generalizing t s with
  | _ n ih =>
      cases t with
      | nil => cases h
      | cons c rest =>
          rw [List.length_cons] at hn
          rw [chars.eq_def] at h
          dsimp only at h
          split at h
          case isTrue hquote =>
            obtain ⟨rfl, rfl⟩ := Prod.mk.inj (Option.some.inj h)
            exact ⟨[], by rw [hquote]; rfl, rfl⟩
          case isFalse hquote =>
            split at h
            · cases h
            split at h
            case isTrue hslash =>
              cases rest with
              | nil => cases h
              | cons e rest₁ =>
                  dsimp only at h
                  split at h
                  case isTrue hu =>
                    rcases rest₁ with _ | ⟨h₁, _ | ⟨h₂, _ | ⟨h₃, _ | ⟨h₄, rest₂⟩⟩⟩⟩
                    case cons.cons.cons.cons =>
                      obtain ⟨u, hhex, h⟩ := Option.bind_eq_some_iff.1 h
                      obtain ⟨p, hp, hs⟩ := Option.map_eq_some_iff.1 h
                      obtain ⟨rfl, rfl⟩ := Prod.mk.inj hs
                      obtain ⟨w, rfl, hw⟩ := ih _ (by simp at hn; omega) hp rfl
                      refine ⟨92 :: 117 :: h₁ :: h₂ :: h₃ :: h₄ :: w, by rw [hslash, hu]; rfl, ?_⟩
                      rw [pieces, hhex]
                      simp [hw]
                    all_goals cases h
                  case isFalse hu =>
                    obtain ⟨u, hescape, h⟩ := Option.bind_eq_some_iff.1 h
                    obtain ⟨p, hp, hs⟩ := Option.map_eq_some_iff.1 h
                    obtain ⟨rfl, rfl⟩ := Prod.mk.inj hs
                    obtain ⟨w, rfl, hw⟩ := ih _ (by simp at hn; omega) hp rfl
                    refine ⟨92 :: e :: w, by rw [hslash]; rfl, ?_⟩
                    rw [pieces]
                    · rw [hescape]
                      simp [hw]
                    · rintro a b c d e' rfl
                      exact absurd rfl hu
            case isFalse hslash =>
              obtain ⟨p, hp, hs⟩ := Option.map_eq_some_iff.1 h
              obtain ⟨rfl, rfl⟩ := Prod.mk.inj hs
              obtain ⟨w, rfl, hw⟩ := ih _ (by omega) hp rfl
              exact ⟨c :: w, rfl, by rw [pieces_plain w hslash, hw]⟩

/-- `w` stands between quotes in the text, and is read as the string `s`. -/
def Literal (text s w : JsString) : Prop :=
  ∃ a b, text = a ++ 34 :: (w ++ 34 :: b) ∧ chars (w ++ 34 :: b) = some (s, b)

theorem Literal.flatten {text s w : JsString} (h : Literal text s w) : (pieces w).flatten = s := by
  obtain ⟨a, b, -, hchars⟩ := h
  obtain ⟨w', hw', hs⟩ := chars_pieces hchars
  rwa [List.append_cancel_right hw']

theorem pieces_ne_nil (w : JsString) : pieces w ≠ [] := by
  fun_cases pieces w <;> simp

/-- The first piece is followed by the closing quote or by an escape. -/
theorem pieces_first (w : JsString) :
    ∀ p ∈ (pieces w).head?, ∃ b, w = p ++ b ∧ ∀ x ∈ b.head?, x = 92 := by
  fun_induction pieces w with
  | case1 =>
      rintro p ⟨⟩
      exact ⟨[], rfl, by simp⟩
  | case2 a b c d rest =>
      rintro p ⟨⟩
      exact ⟨_, rfl, by simp⟩
  | case3 e rest =>
      rintro p ⟨⟩
      exact ⟨_, rfl, by simp⟩
  | case4 c rest _ _ hnil => exact absurd hnil (pieces_ne_nil rest)
  | case5 c rest _ _ p ps hpieces ih =>
      rintro q ⟨⟩
      rw [hpieces] at ih
      obtain ⟨b, hrest, hb⟩ := ih p rfl
      exact ⟨b, congrArg (c :: ·) hrest, hb⟩

/-- A piece of more than one character stands in the literal as it is, and is followed by the closing
quote or by an escape. -/
theorem pieces_stand (w : JsString) :
    ∀ p ∈ pieces w, p.length ≤ 1 ∨ ∃ a b, w = a ++ (p ++ b) ∧ ∀ x ∈ b.head?, x = 92 := by
  have hmore : ∀ {rest : JsString} (front : JsString) {p : JsString},
      (p.length ≤ 1 ∨ ∃ a b, rest = a ++ (p ++ b) ∧ ∀ x ∈ b.head?, x = 92) →
      p.length ≤ 1 ∨ ∃ a b, front ++ rest = a ++ (p ++ b) ∧ ∀ x ∈ b.head?, x = 92 := by
    intro rest front p h
    refine h.imp_right fun ⟨a, b, hrest, hb⟩ => ⟨front ++ a, b, ?_, hb⟩
    rw [hrest, List.append_assoc]
  have hescape : ∀ u : Option ℕ, u.toList.length ≤ 1 := by
    intro u
    cases u with
    | none => exact Nat.zero_le 1
    | some u => exact Nat.le_refl 1
  fun_induction pieces w with
  | case1 =>
      intro p hp
      rw [List.mem_singleton.1 hp]
      exact Or.inl (Nat.zero_le 1)
  | case2 a b c d rest ih =>
      intro p hp
      rcases List.mem_cons.1 hp with rfl | hp
      · exact Or.inl (Nat.zero_le 1)
      rcases List.mem_cons.1 hp with rfl | hp
      · exact Or.inl (hescape _)
      · exact hmore [92, 117, a, b, c, d] (ih p hp)
  | case3 e rest _ ih =>
      intro p hp
      rcases List.mem_cons.1 hp with rfl | hp
      · exact Or.inl (Nat.zero_le 1)
      rcases List.mem_cons.1 hp with rfl | hp
      · exact Or.inl (hescape _)
      · exact hmore [92, e] (ih p hp)
  | case4 c rest _ _ hnil => exact absurd hnil (pieces_ne_nil rest)
  | case5 c rest _ _ p ps hpieces ih =>
      intro q hq
      rcases List.mem_cons.1 hq with rfl | hq
      · obtain ⟨b, hrest, hb⟩ := pieces_first rest p (by rw [hpieces]; rfl)
        exact Or.inr ⟨[], b, congrArg (c :: ·) hrest, hb⟩
      · rw [hpieces] at ih
        exact hmore [c] (ih q (List.mem_cons_of_mem p hq))

/-! ### Where the strings of a value come from -/

/-- The string is written in the text. -/
def Told (text s : JsString) : Prop := ∃ w, Literal text s w

theorem Told.of_suffix {text text' s : JsString} (hsuffix : text' <:+ text) (h : Told text' s) :
    Told text s := by
  obtain ⟨front, rfl⟩ := hsuffix
  obtain ⟨w, a, b, rfl, hw⟩ := h
  exact ⟨w, front ++ a, b, (List.append_assoc _ _ _).symm, hw⟩

theorem skip_suffix (s : JsString) : skip s <:+ s := List.dropWhile_suffix _

theorem suffix_of_skip {s rest : JsString} {c : ℕ} (h : skip s = c :: rest) : rest <:+ s :=
  (List.suffix_cons c rest).trans (h ▸ skip_suffix s)

theorem chars_suffix {t s b : JsString} (h : chars t = some (s, b)) : b <:+ t := by
  obtain ⟨w, rfl, -⟩ := chars_pieces h
  exact (List.suffix_cons 34 b).trans (List.suffix_append w _)

theorem digits_suffix {s : JsString} {p : JsString × JsString} (h : digits s = some p) : p.2 <:+ s := by
  unfold digits at h
  dsimp only at h
  split at h
  · cases h
  · cases h
    exact List.drop_suffix _ _

theorem intPart_suffix {s : JsString} {p : JsString × JsString} (h : intPart s = some p) :
    p.2 <:+ s := by
  unfold intPart at h
  split at h
  · cases h
    exact List.suffix_cons _ _
  · exact digits_suffix h

theorem fracPart_suffix {s : JsString} {p : JsString × JsString} (h : fracPart s = some p) :
    p.2 <:+ s := by
  unfold fracPart at h
  split at h
  · exact (digits_suffix h).trans (List.suffix_cons _ _)
  · cases h
    exact List.suffix_refl _

theorem expPart_suffix {s : JsString} {p : ℤ × JsString} (h : expPart s = some p) : p.2 <:+ s := by
  have hdigits : ∀ (g : JsString → ℤ) {rest : JsString},
      (digits rest).map (fun p => (g p.1, p.2)) = some p → p.2 <:+ rest := by
    intro g rest hmap
    obtain ⟨q, hq, rfl⟩ := Option.map_eq_some_iff.1 hmap
    exact digits_suffix hq
  unfold expPart at h
  split at h
  · split at h
    · split at h
      · exact (hdigits (fun ds => JsString.digitsValue ds) h).trans
          ((List.suffix_cons _ _).trans (List.suffix_cons _ _))
      · exact (hdigits (fun ds => -JsString.digitsValue ds) h).trans
          ((List.suffix_cons _ _).trans (List.suffix_cons _ _))
      · exact (hdigits (fun ds => JsString.digitsValue ds) h).trans (List.suffix_cons _ _)
    · cases h
      exact List.suffix_refl _
  · cases h
    exact List.suffix_refl _

theorem unsigned_suffix {s : JsString} {p : ℚ × JsString} (h : unsigned s = some p) : p.2 <:+ s := by
  obtain ⟨i, hi, h⟩ := Option.bind_eq_some_iff.1 h
  obtain ⟨f, hf, h⟩ := Option.bind_eq_some_iff.1 h
  obtain ⟨e, he, h⟩ := Option.map_eq_some_iff.1 h
  rw [← h]
  exact (expPart_suffix he).trans ((fracPart_suffix hf).trans (intPart_suffix hi))

theorem number_suffix {s : JsString} {p : ℚ × JsString} (h : number s = some p) : p.2 <:+ s := by
  unfold number at h
  split at h
  · obtain ⟨q, hq, rfl⟩ := Option.map_eq_some_iff.1 h
    exact (unsigned_suffix hq).trans (List.suffix_cons _ _)
  · exact unsigned_suffix h

theorem keyword_suffix {w : String} {s rest : JsString} (h : keyword w s = some rest) : rest <:+ s := by
  unfold keyword at h
  split at h
  · cases h
    exact List.drop_suffix _ _
  · cases h

/-- What reading with some fuel leaves, and where its strings come from. -/
structure ReadFrom (fuel : ℕ) : Prop where
  value : ∀ {s v rest}, Json.value fuel s = some (v, rest) →
    rest <:+ s ∧ ∀ t ∈ v.strings, Told s t
  elements : ∀ {s xs rest}, elements fuel s = some (xs, rest) →
    rest <:+ s ∧ ∀ t ∈ stringsList xs, Told s t
  members : ∀ {s es rest}, members fuel s = some (es, rest) →
    rest <:+ s ∧ ∀ t ∈ stringsEntries es, Told s t

theorem ReadFrom.value_succ {fuel : ℕ} (ih : ReadFrom fuel) {s rest : JsString} {v : Json}
    (h : Json.value (fuel + 1) s = some (v, rest)) : rest <:+ s ∧ ∀ t ∈ v.strings, Told s t := by
  have hnone : ∀ {v : Json} {rest' : JsString}, v.strings = [] → rest' <:+ s →
      rest' <:+ s ∧ ∀ t ∈ v.strings, Told s t := by
    intro v rest' hv hrest
    refine ⟨hrest, fun t ht => ?_⟩
    rw [hv] at ht
    cases ht
  rw [Json.value] at h
  split at h
  · cases h
  rename_i c t hskip
  have hwhole : c :: t <:+ s := hskip ▸ skip_suffix s
  have ht : t <:+ s := suffix_of_skip hskip
  split at h
  case isTrue hquote =>
    obtain ⟨⟨u, b⟩, hp, h⟩ := Option.map_eq_some_iff.1 h
    obtain ⟨rfl, rfl⟩ := Prod.mk.inj h
    obtain ⟨w, rfl, -⟩ := chars_pieces hp
    refine ⟨(chars_suffix hp).trans ht, fun t' ht' => ?_⟩
    obtain rfl := List.mem_singleton.1 ht'
    obtain ⟨front, hfront⟩ := hwhole
    exact ⟨w, front, b, by rw [← hfront, hquote], hp⟩
  split at h
  · split at h
    · rename_i rest' hclose
      obtain ⟨rfl, rfl⟩ := Prod.mk.inj (Option.some.inj h)
      exact hnone rfl ((suffix_of_skip hclose).trans ht)
    · obtain ⟨⟨xs, b⟩, hp, h⟩ := Option.map_eq_some_iff.1 h
      obtain ⟨rfl, rfl⟩ := Prod.mk.inj h
      obtain ⟨hrest, htold⟩ := ih.elements hp
      have hsuffix := (skip_suffix t).trans ht
      exact ⟨hrest.trans hsuffix, fun u hu => (htold u hu).of_suffix hsuffix⟩
  split at h
  · split at h
    · rename_i rest' hclose
      obtain ⟨rfl, rfl⟩ := Prod.mk.inj (Option.some.inj h)
      exact hnone rfl ((suffix_of_skip hclose).trans ht)
    · obtain ⟨⟨es, b⟩, hp, h⟩ := Option.map_eq_some_iff.1 h
      obtain ⟨rfl, rfl⟩ := Prod.mk.inj h
      obtain ⟨hrest, htold⟩ := ih.members hp
      have hsuffix := (skip_suffix t).trans ht
      refine ⟨hrest.trans hsuffix, fun u hu => (htold u ?_).of_suffix hsuffix⟩
      obtain ⟨e, he, hu⟩ := mem_stringsEntries.1 hu
      exact mem_stringsEntries.2 ⟨e, (mem_foldl_assign he).resolve_left (by simp), hu⟩
  split at h
  · obtain ⟨r, hr, h⟩ := Option.map_eq_some_iff.1 h
    obtain ⟨rfl, rfl⟩ := Prod.mk.inj h
    exact hnone rfl ((keyword_suffix hr).trans hwhole)
  split at h
  · obtain ⟨r, hr, h⟩ := Option.map_eq_some_iff.1 h
    obtain ⟨rfl, rfl⟩ := Prod.mk.inj h
    exact hnone rfl ((keyword_suffix hr).trans hwhole)
  split at h
  · obtain ⟨r, hr, h⟩ := Option.map_eq_some_iff.1 h
    obtain ⟨rfl, rfl⟩ := Prod.mk.inj h
    exact hnone rfl ((keyword_suffix hr).trans hwhole)
  · obtain ⟨p, hp, h⟩ := Option.map_eq_some_iff.1 h
    obtain ⟨rfl, rfl⟩ := Prod.mk.inj h
    exact hnone rfl ((number_suffix hp).trans hwhole)

theorem ReadFrom.elements_succ {fuel : ℕ} (ih : ReadFrom fuel) {s rest : JsString} {xs : List Json}
    (h : Json.elements (fuel + 1) s = some (xs, rest)) :
    rest <:+ s ∧ ∀ t ∈ stringsList xs, Told s t := by
  rw [Json.elements] at h
  obtain ⟨⟨v, b⟩, hv, h⟩ := Option.bind_eq_some_iff.1 h
  obtain ⟨hb, htold⟩ := ih.value hv
  dsimp only at h
  split at h
  · rename_i rest₁ hskip
    obtain ⟨⟨ys, b'⟩, hys, h⟩ := Option.map_eq_some_iff.1 h
    obtain ⟨rfl, rfl⟩ := Prod.mk.inj h
    have hmore := (suffix_of_skip hskip).trans hb
    obtain ⟨hrest, htold'⟩ := ih.elements hys
    refine ⟨hrest.trans hmore, fun t ht => ?_⟩
    rcases List.mem_append.1 ht with ht | ht
    · exact htold t ht
    · exact (htold' t ht).of_suffix hmore
  · rename_i rest₁ hskip
    obtain ⟨rfl, rfl⟩ := Prod.mk.inj (Option.some.inj h)
    refine ⟨(suffix_of_skip hskip).trans hb, fun t ht => htold t ?_⟩
    simpa [stringsList] using ht
  · cases h

theorem ReadFrom.members_succ {fuel : ℕ} (ih : ReadFrom fuel) {s rest : JsString}
    {es : List (JsString × Json)} (h : Json.members (fuel + 1) s = some (es, rest)) :
    rest <:+ s ∧ ∀ t ∈ stringsEntries es, Told s t := by
  rw [Json.members] at h
  split at h
  case h_2 => cases h
  rename_i rest₀ hopen
  obtain ⟨⟨k, b₀⟩, hk, h⟩ := Option.bind_eq_some_iff.1 h
  have hname := (chars_suffix hk).trans (suffix_of_skip hopen)
  dsimp only at h
  split at h
  case h_2 => cases h
  rename_i rest₁ hcolon
  obtain ⟨⟨v, b⟩, hv, h⟩ := Option.bind_eq_some_iff.1 h
  have hvalue := (suffix_of_skip hcolon).trans hname
  obtain ⟨hb, htold⟩ := ih.value hv
  dsimp only at h
  split at h
  · rename_i rest₂ hskip
    obtain ⟨⟨fs, b'⟩, hfs, h⟩ := Option.map_eq_some_iff.1 h
    obtain ⟨rfl, rfl⟩ := Prod.mk.inj h
    have hmore := ((suffix_of_skip hskip).trans hb).trans hvalue
    obtain ⟨hrest, htold'⟩ := ih.members hfs
    refine ⟨hrest.trans hmore, fun t ht => ?_⟩
    rcases List.mem_append.1 ht with ht | ht
    · exact (htold t ht).of_suffix hvalue
    · exact (htold' t ht).of_suffix hmore
  · rename_i rest₂ hskip
    obtain ⟨rfl, rfl⟩ := Prod.mk.inj (Option.some.inj h)
    refine ⟨((suffix_of_skip hskip).trans hb).trans hvalue, fun t ht => (htold t ?_).of_suffix hvalue⟩
    simpa [stringsEntries] using ht
  · cases h

theorem readFrom (fuel : ℕ) : ReadFrom fuel := by
  induction fuel with
  | zero => exact ⟨fun h => (by cases h), fun h => (by cases h), fun h => (by cases h)⟩
  | succ fuel ih => exact ⟨ih.value_succ, ih.elements_succ, ih.members_succ⟩

/-- **Every string of a parsed value is written in the text.** -/
theorem parse_strings {text : JsString} {v : Json} (h : parse text = some v) :
    ∀ s ∈ v.strings, Told text s := by
  obtain ⟨⟨v', rest⟩, hvalue, h⟩ := Option.bind_eq_some_iff.1 h
  dsimp only at h
  split at h
  · cases h
    exact ((readFrom _).value hvalue).2
  · cases h

/-! ### Texts of a given shape -/

/-- Characters that are written as they are. -/
theorem chars_stretch {s : JsString} (hs : ∀ c ∈ s, 32 ≤ c ∧ c ≠ 34 ∧ c ≠ 92) (rest : JsString) :
    chars (s ++ rest) = (chars rest).map fun p => (s ++ p.1, p.2) := by
  induction s with
  | nil => simp
  | cons c s ih =>
      obtain ⟨⟨hcontrol, hquote, hslash⟩, hs⟩ := List.forall_mem_cons.1 hs
      rw [List.cons_append, chars_plain _ hquote hcontrol hslash, ih hs, Option.map_map]
      rfl

theorem chars_hex {a b c d u : ℕ} (h : hex4 a b c d = some u) (rest : JsString) :
    chars (92 :: 117 :: a :: b :: c :: d :: rest) = (chars rest).map fun p => (u :: p.1, p.2) := by
  rw [chars]
  simp [h]

/-- An object with one string. -/
theorem parse_member {k t name s : JsString} (hname : chars k = some (name, 58 :: 34 :: t))
    (hvalue : chars t = some (s, [125])) :
    parse (123 :: 34 :: k) = some (.obj [(name, .str s)]) := by
  have hskip : ∀ (c : ℕ) (rest : JsString), isBlank c = false → skip (c :: rest) = c :: rest := by
    intro c rest hc
    unfold skip
    rw [List.dropWhile_cons, hc]
    rfl
  have hstring : ∀ fuel, value (fuel + 1) (34 :: t) = some (.str s, [125]) := by
    intro fuel
    rw [value, hskip 34 t rfl]
    simp [hvalue]
  have hmembers : ∀ fuel, members (fuel + 2) (34 :: k) = some ([(name, .str s)], []) := by
    intro fuel
    rw [members, hskip 34 k rfl]
    simp [hname, hskip 58 _ rfl, hstring, hskip 125 [] rfl]
  have hobject : ∀ fuel, value (fuel + 3) (123 :: 34 :: k) = some (.obj [(name, .str s)], []) := by
    intro fuel
    rw [value, hskip 123 _ rfl]
    simp [hskip 34 k rfl, hmembers, JsMap.assign]
  unfold parse
  have hfuel : 2 * (123 :: 34 :: k).length + 2 = 2 * k.length + 3 + 3 := by
    simp only [List.length_cons]
    omega
  rw [hfuel, hobject]
  rfl
end Json
