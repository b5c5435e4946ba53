import VibeRouter.Lib.Json

/-! # Reading back a JSON text

`parse_stringify`: `Json.parse` reads from the text that `Json.stringify` writes for a value
that same value, when its objects name every member once and its numbers are read back. -/

namespace Json

variable {number : ℚ → JsString}

/-! ### Strings -/

theorem hexDigit_hexChar {d : ℕ} (h : d < 16) : hexDigit (hexChar d) = some d := by
  unfold hexChar
  split
  · next hd =>
      unfold hexDigit
      rw [if_pos (by omega)]
      congr 1
      omega
  · next hd =>
      unfold hexDigit
      rw [if_neg (by omega), if_neg (by omega), if_pos (by omega)]
      congr 1
      omega

theorem hex4_hexChar {c : ℕ} (h : c < 0x10000) :
    hex4 (hexChar (c / 4096)) (hexChar (c / 256 % 16)) (hexChar (c / 16 % 16)) (hexChar (c % 16)) =
      some c := by
  have h₁ : hexDigit (hexChar (c / 4096)) = some (c / 4096) := hexDigit_hexChar (by omega)
  have h₂ : hexDigit (hexChar (c / 256 % 16)) = some (c / 256 % 16) := hexDigit_hexChar (by omega)
  have h₃ : hexDigit (hexChar (c / 16 % 16)) = some (c / 16 % 16) := hexDigit_hexChar (by omega)
  have h₄ : hexDigit (hexChar (c % 16)) = some (c % 16) := hexDigit_hexChar (by omega)
  unfold hex4
  rw [h₁, h₂, h₃, h₄]
  have hsum : ((c / 4096 * 16 + c / 256 % 16) * 16 + c / 16 % 16) * 16 + c % 16 = c := by omega
  exact congrArg some hsum

theorem chars_end (rest : JsString) : chars (34 :: rest) = some ([], rest) := by
  rw [chars.eq_def]
  rfl

/-- A code unit that stands for itself inside a string. -/
theorem chars_plain {c : ℕ} (s : JsString) (hquote : c ≠ 34) (hcontrol : 32 ≤ c) (hslash : c ≠ 92) :
    chars (c :: s) = (chars s).map fun p => (c :: p.1, p.2) := by
  rw [chars.eq_def]
  simp only [hquote, hslash, if_false]
  rw [if_neg (by omega)]

theorem chars_unicodeEscape {c : ℕ} (s : JsString) (h : c < 0x10000) :
    chars (unicodeEscape c ++ s) = (chars s).map fun p => (c :: p.1, p.2) := by
  unfold unicodeEscape
  simp only [List.cons_append, List.nil_append]
  rw [chars.eq_def]
  have hquote : ¬(92 : ℕ) = 34 := by omega
  have hcontrol : ¬(92 : ℕ) < 32 := by omega
  simp only [hquote, hcontrol, if_false, if_true]
  rw [hex4_hexChar h]
  rfl

/-- An escape of one character. -/
theorem chars_escape {e u : ℕ} (s : JsString) (he : e ≠ 117) (h : escape e = some u) :
    chars (92 :: e :: s) = (chars s).map fun p => (u :: p.1, p.2) := by
  rw [chars.eq_def]
  have hquote : ¬(92 : ℕ) = 34 := by omega
  have hcontrol : ¬(92 : ℕ) < 32 := by omega
  simp only [hquote, hcontrol, he, if_false, if_true]
  rw [h]
  rfl

theorem chars_writeChar (c : ℕ) (s : JsString) :
    chars (writeChar c ++ s) = (chars s).map fun p => (c :: p.1, p.2) := by
  unfold writeChar
  split
  · next h => rw [h]; exact chars_escape s (by omega) rfl
  split
  · next h => rw [h]; exact chars_escape s (by omega) rfl
  split
  · next h => rw [h]; exact chars_escape s (by omega) rfl
  split
  · next h => rw [h]; exact chars_escape s (by omega) rfl
  split
  · next h => rw [h]; exact chars_escape s (by omega) rfl
  split
  · next h => rw [h]; exact chars_escape s (by omega) rfl
  split
  · next h => rw [h]; exact chars_escape s (by omega) rfl
  split
  · exact chars_unicodeEscape s (by omega)
  · exact chars_plain s (by omega) (by omega) (by omega)

/-- The inside of a string is read back up to its closing quote. -/
theorem chars_writeChars (s rest : JsString) :
    chars (writeChars s ++ 34 :: rest) = some (s, rest) := by
  fun_induction writeChars s with
  | case1 => exact chars_end rest
  | case2 c hhigh d ds hlow ih =>
      rw [List.cons_append, List.cons_append, chars_plain _ (by omega) (by omega) (by omega),
        chars_plain _ (by omega) (by omega) (by omega), ih]
      rfl
  | case3 c hhigh d ds hlow ih =>
      rw [List.append_assoc, chars_unicodeEscape _ (by omega), ih]
      rfl
  | case4 c hhigh =>
      rw [chars_unicodeEscape _ (by omega), chars_end]
      rfl
  | case5 c cs hhigh hlow ih =>
      rw [List.append_assoc, chars_unicodeEscape _ (by omega), ih]
      rfl
  | case6 c cs hhigh hlow ih =>
      rw [List.append_assoc, chars_writeChar, ih]
      rfl

/-! ### Values -/

/-- What may follow a value: nothing, or a character that ends a number. -/
def Ends (rest : JsString) : Prop := ∀ c ∈ rest.head?, c = 44 ∨ c = 93 ∨ c = 125

/-- A character a value may start with, and no other token of the grammar. -/
def Opens (c : ℕ) : Prop := isBlank c = false ∧ c ≠ 93 ∧ c ≠ 125

instance (c : ℕ) : Decidable (Opens c) := inferInstanceAs (Decidable (_ ∧ _))

/-- A number is read back from the text written for it. -/
def ReadsBack (number : ℚ → JsString) (n : ℚ) : Prop :=
  (∃ c cs, number n = c :: cs ∧ (c = 45 ∨ JsString.isDigit c = true)) ∧
    ∀ rest, Ends rest → Json.number (number n ++ rest) = some (n, rest)

mutual

/-- The numbers are read back, and objects name every member once. -/
def Writable (number : ℚ → JsString) : Json → Prop
  | null => True
  | bool _ => True
  | num n => ReadsBack number n
  | str _ => True
  | arr xs => WritableList number xs
  | obj es => (es.map Prod.fst).Nodup ∧ WritableEntries number es

def WritableList (number : ℚ → JsString) : List Json → Prop
  | [] => True
  | x :: xs => Writable number x ∧ WritableList number xs

def WritableEntries (number : ℚ → JsString) : List (JsString × Json) → Prop
  | [] => True
  | (_, v) :: es => Writable number v ∧ WritableEntries number es

end

theorem skip_of_opens {c : ℕ} {s : JsString} (h : Opens c) : skip (c :: s) = c :: s := by
  unfold skip
  rw [List.dropWhile_cons_of_neg (by simp [h.1])]

theorem skip_append_opens {s rest : JsString} (h : ∃ c cs, s = c :: cs ∧ Opens c) :
    skip (s ++ rest) = s ++ rest := by
  obtain ⟨c, cs, rfl, hc⟩ := h
  exact skip_of_opens hc

theorem opens_digit {c : ℕ} (h : c = 45 ∨ JsString.isDigit c = true) : Opens c := by
  have hrange : c = 45 ∨ 48 ≤ c ∧ c ≤ 57 := by simpa [JsString.isDigit] using h
  refine ⟨?_, by omega, by omega⟩
  simp only [isBlank, Bool.or_eq_false_iff, beq_eq_false_iff_ne]
  omega

/-- Every value starts with a character of its own. -/
theorem stringify_opens {v : Json} (h : Writable number v) :
    ∃ c cs, stringify number v = c :: cs ∧ Opens c := by
  cases v with
  | null => exact ⟨110, _, rfl, by decide⟩
  | bool b =>
      cases b with
      | false => exact ⟨102, _, rfl, by decide⟩
      | true => exact ⟨116, _, rfl, by decide⟩
  | num n =>
      obtain ⟨⟨c, cs, hc, hdigit⟩, -⟩ := h
      exact ⟨c, cs, hc, opens_digit hdigit⟩
  | str s => exact ⟨34, _, rfl, by decide⟩
  | arr xs => exact ⟨91, _, rfl, by decide⟩
  | obj es => exact ⟨123, _, rfl, by decide⟩

/-- The text of `v` is read back as `v`, with steps to spare for what is nested in it. -/
def Reads (number : ℚ → JsString) (v : Json) : Prop :=
  ∀ fuel rest, 2 * v.size ≤ fuel → Ends rest →
    value fuel (stringify number v ++ rest) = some (v, rest)

theorem skip_ends {rest : JsString} (h : Ends rest) : skip rest = rest := by
  cases rest with
  | nil => rfl
  | cons c cs =>
      have hc : c = 44 ∨ c = 93 ∨ c = 125 := h c rfl
      unfold skip
      rw [List.dropWhile_cons_of_neg]
      rcases hc with rfl | rfl | rfl <;> decide

theorem size_pos (v : Json) : 1 ≤ v.size := by
  cases v <;> simp [size]

/-- The elements of a non-empty array are read back up to its bracket. -/
theorem elements_stringifyList {x : Json} {xs : List Json} (hread : ∀ y ∈ x :: xs, Reads number y)
    (fuel : ℕ) (rest : JsString) (hfuel : 2 * sizeList (x :: xs) + 1 ≤ fuel) :
    elements fuel (stringifyList number (x :: xs) ++ 93 :: rest) = some (x :: xs, rest) := by
  induction xs generalizing x fuel with
  | nil =>
      have hsize := size_pos x
      simp only [sizeList] at hfuel
      obtain ⟨f, rfl⟩ : ∃ f, fuel = f + 1 := ⟨fuel - 1, by omega⟩
      have hx : value f (stringify number x ++ 93 :: rest) = some (x, 93 :: rest) :=
        hread x (List.mem_cons_self ..) f _ (by omega) fun c hc => by
          cases hc; exact Or.inr (Or.inl rfl)
      rw [elements]
      simp only [stringifyList]
      rw [hx]
      rfl
  | cons y ys ih =>
      have hsize := size_pos x
      have hsize' := size_pos y
      simp only [sizeList] at hfuel
      obtain ⟨f, rfl⟩ : ∃ f, fuel = f + 1 := ⟨fuel - 1, by omega⟩
      have hx : value f (stringify number x ++ 44 :: (stringifyList number (y :: ys) ++ 93 :: rest)) =
          some (x, 44 :: (stringifyList number (y :: ys) ++ 93 :: rest)) :=
        hread x (List.mem_cons_self ..) f _ (by omega) fun c hc => by
          cases hc; exact Or.inl rfl
      have hys : elements f (stringifyList number (y :: ys) ++ 93 :: rest) = some (y :: ys, rest) :=
        ih (fun z hz => hread z (List.mem_cons_of_mem _ hz)) f (by simp only [sizeList]; omega)
      rw [elements]
      simp only [stringifyList, List.append_assoc, List.cons_append]
      rw [hx]
      have hskip : skip (44 :: (stringifyList number (y :: ys) ++ 93 :: rest)) =
          44 :: (stringifyList number (y :: ys) ++ 93 :: rest) := skip_of_opens (by decide)
      simp only [Option.bind_some, hskip]
      rw [hys]
      rfl

theorem skip_members {e : JsString × Json} {es : List (JsString × Json)} (rest : JsString) :
    skip (stringifyEntries number (e :: es) ++ rest) =
      stringifyEntries number (e :: es) ++ rest := by
  refine skip_append_opens ⟨34, ?_⟩
  cases es with
  | nil => exact ⟨_, rfl, by decide⟩
  | cons e' es => exact ⟨_, rfl, by decide⟩

/-- One member, up to the value's last character. -/
theorem members_step {k : JsString} {v : Json} {fuel : ℕ} {text rest : JsString}
    (hv : value fuel (stringify number v ++ rest) = some (v, rest))
    (htext : text = quote k ++ 58 :: (stringify number v ++ rest)) :
    members (fuel + 1) text = match skip rest with
      | 44 :: rest₂ => (members fuel rest₂).map fun q => ((k, v) :: q.1, q.2)
      | 125 :: rest₂ => some ([(k, v)], rest₂)
      | _ => none := by
  have hskip : skip text = text := by
    rw [htext]
    exact skip_of_opens (by decide)
  have hcolon : skip (58 :: (stringify number v ++ rest)) = 58 :: (stringify number v ++ rest) :=
    skip_of_opens (by decide)
  rw [members, hskip, htext]
  unfold quote
  simp only [List.append_assoc, List.cons_append, List.nil_append]
  rw [chars_writeChars]
  simp only [Option.bind_some]
  rw [hcolon]
  show ((value fuel (stringify number v ++ rest)).bind _ : Option _) = _
  rw [hv]
  rfl

/-- The members of a non-empty object are read back up to its brace. -/
theorem members_stringifyEntries {e : JsString × Json} {es : List (JsString × Json)}
    (hread : ∀ y ∈ e :: es, Reads number y.2) (fuel : ℕ) (rest : JsString)
    (hfuel : 2 * sizeEntries (e :: es) + 1 ≤ fuel) :
    members fuel (stringifyEntries number (e :: es) ++ 125 :: rest) = some (e :: es, rest) := by
  induction es generalizing e fuel with
  | nil =>
      obtain ⟨k, v⟩ := e
      have hsize := size_pos v
      simp only [sizeEntries] at hfuel
      obtain ⟨f, rfl⟩ : ∃ f, fuel = f + 1 := ⟨fuel - 1, by omega⟩
      have hends : Ends (125 :: rest) := fun c hc => by cases hc; exact Or.inr (Or.inr rfl)
      have hv : value f (stringify number v ++ 125 :: rest) = some (v, 125 :: rest) :=
        hread (k, v) (List.mem_cons_self ..) f _ (by simp only; omega) hends
      rw [members_step (k := k) hv (by simp [stringifyEntries]), skip_ends hends]
      rfl
  | cons e' es ih =>
      obtain ⟨k, v⟩ := e
      have hsize := size_pos v
      have hsize' := size_pos e'.2
      simp only [sizeEntries] at hfuel
      obtain ⟨f, rfl⟩ : ∃ f, fuel = f + 1 := ⟨fuel - 1, by omega⟩
      have hends : Ends (44 :: (stringifyEntries number (e' :: es) ++ 125 :: rest)) := fun c hc => by
        cases hc; exact Or.inl rfl
      have hv := hread (k, v) (List.mem_cons_self ..) f _ (by simp only; omega) hends
      simp only at hv
      have hes : members f (stringifyEntries number (e' :: es) ++ 125 :: rest) =
          some (e' :: es, rest) :=
        ih (fun y hy => hread y (List.mem_cons_of_mem _ hy)) f (by simp only [sizeEntries]; omega)
      rw [members_step (k := k) hv (by simp [stringifyEntries]), skip_ends hends]
      simp only [hes, Option.map_some]

/-- Assigning members of different names one after the other keeps them all in order. -/
theorem foldl_assign (es done : List (JsString × Json))
    (h : ((done ++ es).map Prod.fst).Nodup) :
    es.foldl (fun es e => JsMap.assign e.1 e.2 es) done = done ++ es := by
  induction es generalizing done with
  | nil => simp
  | cons e es ih =>
      have hnew : e.1 ∉ done.map Prod.fst := by
        intro hmem
        rw [List.map_append, List.nodup_append] at h
        exact h.2.2 _ hmem _ (List.mem_cons_self ..) rfl
      rw [List.foldl_cons, JsMap.assign_of_notMem hnew, ih _ (by simpa using h)]
      simp

theorem mem_sizeList {x : Json} {xs : List Json} (h : x ∈ xs) : x.size ≤ sizeList xs := by
  induction xs with
  | nil => cases h
  | cons y ys ih =>
      simp only [sizeList]
      cases h with
      | head => omega
      | tail _ h => have := ih h; omega

theorem mem_sizeEntries {e : JsString × Json} {es : List (JsString × Json)} (h : e ∈ es) :
    e.2.size ≤ sizeEntries es := by
  induction es with
  | nil => cases h
  | cons y ys ih =>
      simp only [sizeEntries]
      cases h with
      | head => omega
      | tail _ h => have := ih h; omega

theorem size_mem_arr {x : Json} {xs : List Json} (h : x ∈ xs) : x.size < (arr xs).size := by
  have := mem_sizeList h
  simp only [size]
  omega

theorem size_mem_obj {e : JsString × Json} {es : List (JsString × Json)} (h : e ∈ es) :
    e.2.size < (obj es).size := by
  have := mem_sizeEntries h
  simp only [size]
  omega

theorem mem_of_lookup {k : JsString} {v : Json} {es : List (JsString × Json)}
    (h : es.lookup k = some v) : (k, v) ∈ es := by
  induction es with
  | nil => cases h
  | cons e es ih =>
      obtain ⟨k', v'⟩ := e
      rw [List.lookup_cons] at h
      cases hk : k == k' with
      | true =>
          rw [hk] at h
          cases h
          rw [eq_of_beq hk]
          exact List.mem_cons_self
      | false =>
          rw [hk] at h
          exact List.mem_cons_of_mem _ (ih h)

/-- A member is smaller than its object. -/
theorem size_field {name : String} {v w : Json} (h : v.field name = some w) : w.size < v.size := by
  cases v with
  | obj es => exact size_mem_obj (mem_of_lookup h)
  | null | bool b | num n | str s | arr xs => cases h

theorem WritableList.mem {x : Json} {xs : List Json} (h : WritableList number xs) (hx : x ∈ xs) :
    Writable number x := by
  induction xs with
  | nil => cases hx
  | cons y ys ih =>
      cases hx with
      | head => exact h.1
      | tail _ hx => exact ih h.2 hx

theorem WritableEntries.mem {e : JsString × Json} {es : List (JsString × Json)}
    (h : WritableEntries number es) (he : e ∈ es) : Writable number e.2 := by
  induction es with
  | nil => cases he
  | cons y ys ih =>
      cases he with
      | head => exact h.1
      | tail _ he => exact ih h.2 he

theorem value_array {xs : List Json} (h : WritableList number xs)
    (hread : ∀ x ∈ xs, Reads number x) : Reads number (.arr xs) := by
  intro fuel rest hfuel hends
  simp only [size] at hfuel
  obtain ⟨f, rfl⟩ : ∃ f, fuel = f + 1 := ⟨fuel - 1, by omega⟩
  rw [value]
  simp only [stringify, List.cons_append, List.append_assoc, List.nil_append]
  rw [skip_of_opens (by decide)]
  cases xs with
  | nil => rfl
  | cons x xs =>
      have hopens := stringify_opens h.1
      have hfirst : ∃ c cs, stringifyList number (x :: xs) = c :: cs ∧ Opens c := by
        obtain ⟨c, cs, hc, ho⟩ := hopens
        cases xs with
        | nil => exact ⟨c, cs, hc, ho⟩
        | cons y ys => exact ⟨c, cs ++ 44 :: stringifyList number (y :: ys), by
            simp only [stringifyList, hc, List.cons_append], ho⟩
      have helements := elements_stringifyList hread f rest (by omega)
      simp only [show ¬(91 : ℕ) = 34 by omega, if_false, if_true]
      rw [skip_append_opens hfirst]
      obtain ⟨c, cs, hc, ho⟩ := hfirst
      rw [hc] at helements ⊢
      have hne : c ≠ 93 := ho.2.1
      simp only [List.cons_append] at helements ⊢
      split
      · next heq =>
          cases heq
          exact absurd rfl hne
      · rw [helements]
        rfl

theorem value_object {es : List (JsString × Json)} (hnodup : (es.map Prod.fst).Nodup)
    (hread : ∀ e ∈ es, Reads number e.2) : Reads number (.obj es) := by
  intro fuel rest hfuel hends
  simp only [size] at hfuel
  obtain ⟨f, rfl⟩ : ∃ f, fuel = f + 1 := ⟨fuel - 1, by omega⟩
  rw [value]
  simp only [stringify, List.cons_append, List.append_assoc, List.nil_append]
  rw [skip_of_opens (by decide)]
  cases es with
  | nil => rfl
  | cons e es =>
      have hmembers := members_stringifyEntries hread f rest (by omega)
      simp only [show ¬(123 : ℕ) = 34 by omega, show ¬(123 : ℕ) = 91 by omega, if_false, if_true]
      rw [skip_members]
      have hfold := foldl_assign (e :: es) [] (by simpa using hnodup)
      split
      · next heq =>
          cases es with
          | nil => cases heq
          | cons e' es => cases heq
      · rw [hmembers]
        simp only [Option.map_some, hfold, List.nil_append]

theorem keyword_append (w : String) (rest : JsString) : keyword w (js w ++ rest) = some rest := by
  unfold keyword
  rw [if_pos (List.prefix_append ..), List.drop_left]

/-- **Every value that can be written is read back**, whatever follows it. -/
theorem reads_of_writable {v : Json} (h : Writable number v) : Reads number v := by
  have hall : ∀ n, ∀ v : Json, v.size ≤ n → Writable number v → Reads number v := by
    intro n
    induction n with
    | zero =>
        intro v hv
        have := size_pos v
        omega
    | succ n ih =>
        intro v hv h
        cases v with
        | null =>
            intro fuel rest hfuel _
            simp only [size] at hfuel
            obtain ⟨f, rfl⟩ : ∃ f, fuel = f + 1 := ⟨fuel - 1, by omega⟩
            exact congrArg (Option.map _) (keyword_append "null" rest)
        | bool b =>
            intro fuel rest hfuel _
            simp only [size] at hfuel
            obtain ⟨f, rfl⟩ : ∃ f, fuel = f + 1 := ⟨fuel - 1, by omega⟩
            cases b with
            | true => exact congrArg (Option.map _) (keyword_append "true" rest)
            | false => exact congrArg (Option.map _) (keyword_append "false" rest)
        | num m =>
            intro fuel rest hfuel hends
            simp only [size] at hfuel
            obtain ⟨f, rfl⟩ : ∃ f, fuel = f + 1 := ⟨fuel - 1, by omega⟩
            obtain ⟨⟨c, cs, hc, hdigit⟩, hback⟩ := h
            have hnumber := hback rest hends
            rw [value]
            simp only [stringify, hc, List.cons_append] at hnumber ⊢
            rw [skip_of_opens (opens_digit hdigit)]
            have hrange : c = 45 ∨ 48 ≤ c ∧ c ≤ 57 := by simpa [JsString.isDigit] using hdigit
            simp only [show ¬c = 34 by omega, show ¬c = 91 by omega, show ¬c = 123 by omega,
              show ¬c = 116 by omega, show ¬c = 102 by omega, show ¬c = 110 by omega, if_false]
            rw [hnumber]
            rfl
        | str s =>
            intro fuel rest hfuel _
            simp only [size] at hfuel
            obtain ⟨f, rfl⟩ : ∃ f, fuel = f + 1 := ⟨fuel - 1, by omega⟩
            rw [value]
            simp only [stringify, quote, List.cons_append, List.append_assoc, List.nil_append]
            rw [skip_of_opens (by decide)]
            simp only [if_true, chars_writeChars, Option.map_some]
        | arr xs =>
            simp only [size] at hv
            refine value_array h fun x hx => ih x ?_ (WritableList.mem h hx)
            have := mem_sizeList hx
            omega
        | obj es =>
            simp only [size] at hv
            refine value_object h.1 fun e he => ih e.2 ?_ (WritableEntries.mem h.2 he)
            have := mem_sizeEntries he
            omega
  exact hall v.size v le_rfl h

theorem size_le_length_list (number : ℚ → JsString) (x : Json) (xs : List Json)
    (h : ∀ y ∈ x :: xs, y.size ≤ (stringify number y).length) :
    sizeList (x :: xs) ≤ (stringifyList number (x :: xs)).length := by
  induction xs generalizing x with
  | nil => simpa [sizeList, stringifyList] using h x (List.mem_cons_self ..)
  | cons y ys ih =>
      have hx := h x (List.mem_cons_self ..)
      have hys := ih _ fun z hz => h z (List.mem_cons_of_mem _ hz)
      simp only [sizeList, stringifyList, List.length_append, List.length_cons] at hys ⊢
      omega

theorem size_le_length_entries (number : ℚ → JsString) (e : JsString × Json)
    (es : List (JsString × Json))
    (h : ∀ y ∈ e :: es, y.2.size ≤ (stringify number y.2).length) :
    sizeEntries (e :: es) ≤ (stringifyEntries number (e :: es)).length := by
  induction es generalizing e with
  | nil =>
      have he := h e (List.mem_cons_self ..)
      obtain ⟨k, v⟩ := e
      simp only [sizeEntries, stringifyEntries, List.length_append, List.length_cons] at he ⊢
      omega
  | cons y ys ih =>
      have he := h e (List.mem_cons_self ..)
      have hys := ih _ fun z hz => h z (List.mem_cons_of_mem _ hz)
      obtain ⟨k, v⟩ := e
      simp only [sizeEntries, stringifyEntries, List.length_append, List.length_cons] at he hys ⊢
      omega

/-- A value is not larger than its text. -/
theorem size_le_length {v : Json} (h : Writable number v) :
    v.size ≤ (stringify number v).length := by
  have hall : ∀ n, ∀ v : Json, v.size ≤ n → Writable number v →
      v.size ≤ (stringify number v).length := by
    intro n
    induction n with
    | zero =>
        intro v hv
        have := size_pos v
        omega
    | succ n ih =>
        intro v hv h
        cases v with
        | arr xs =>
            cases xs with
            | nil => simp [size, sizeList, stringify]
            | cons x xs =>
                simp only [size] at hv
                have hlist := size_le_length_list number x xs fun y hy =>
                  ih y (by have := mem_sizeList hy; omega) (WritableList.mem h hy)
                simp only [size, stringify, List.length_cons, List.length_append]
                omega
        | obj es =>
            cases es with
            | nil => simp [size, sizeEntries, stringify]
            | cons e es =>
                simp only [size] at hv
                have hlist := size_le_length_entries number e es
                  fun y hy => ih y.2 (by have := mem_sizeEntries hy; omega)
                    (WritableEntries.mem h.2 hy)
                simp only [size, stringify, List.length_cons, List.length_append]
                omega
        | _ =>
            obtain ⟨c, cs, hc, -⟩ := stringify_opens h
            rw [hc]
            simp [size]
  exact hall v.size v le_rfl h

/-- **A written value is read back.** -/
theorem parse_stringify {v : Json} (h : Writable number v) :
    parse (stringify number v) = some v := by
  have hsize := size_le_length h
  have hends : Ends [] := fun c hc => by cases hc
  have hvalue := reads_of_writable h (2 * (stringify number v).length + 2) [] (by omega) hends
  rw [List.append_nil] at hvalue
  unfold parse
  rw [hvalue]
  rfl

end Json
