import VibeRouter.Lib.Base64

/-! # UTF-8

`Utf8.encode` writes a string as `Buffer.from(text, 'utf8')` does, with U+FFFD in place of a
surrogate without its partner; `Utf8.decode` reads as `buffer.toString('utf8')` does, with one
U+FFFD for every longest piece that starts a character and does not complete it.  A string
without a lone surrogate is read back (`decode_encode`). -/

namespace Utf8

/-- The code units of a code point. -/
def units (n : ℕ) : JsString :=
  if n < 0x10000 then [n] else [0xD800 + (n - 0x10000) / 0x400, 0xDC00 + (n - 0x10000) % 0x400]

/-- The bytes of a code point. -/
def bytes (n : ℕ) : Bytes :=
  if n < 0x80 then [Base64.byte n]
  else if n < 0x800 then [Base64.byte (0xC0 + n / 0x40), Base64.byte (0x80 + n % 0x40)]
  else if n < 0x10000 then
    [Base64.byte (0xE0 + n / 0x1000), Base64.byte (0x80 + n / 0x40 % 0x40),
      Base64.byte (0x80 + n % 0x40)]
  else
    [Base64.byte (0xF0 + n / 0x40000), Base64.byte (0x80 + n / 0x1000 % 0x40),
      Base64.byte (0x80 + n / 0x40 % 0x40), Base64.byte (0x80 + n % 0x40)]

def isHigh (c : ℕ) : Bool := 0xD800 ≤ c && c ≤ 0xDBFF

def isLow (c : ℕ) : Bool := 0xDC00 ≤ c && c ≤ 0xDFFF

/-- The code points of a string. -/
def points : JsString → List ℕ
  | [] => []
  | c :: cs =>
      if isHigh c then
        match cs with
        | d :: ds =>
            if isLow d then (0x10000 + (c - 0xD800) * 0x400 + (d - 0xDC00)) :: points ds
            else 0xFFFD :: points (d :: ds)
        | [] => [0xFFFD]
      else if isLow c then 0xFFFD :: points cs
      else c :: points cs

/-- `Buffer.from(text, 'utf8')`. -/
def encode (s : JsString) : Bytes := (points s).flatMap bytes

/-- A byte that continues a character. -/
def isTail (b : Fin 256) : Bool := 0x80 ≤ b.val && b.val ≤ 0xBF

/-- The bytes a first byte may be followed by. -/
def second (a : ℕ) (b : Fin 256) : Bool :=
  if a = 0xE0 then 0xA0 ≤ b.val && b.val ≤ 0xBF
  else if a = 0xED then 0x80 ≤ b.val && b.val ≤ 0x9F
  else if a = 0xF0 then 0x90 ≤ b.val && b.val ≤ 0xBF
  else if a = 0xF4 then 0x80 ≤ b.val && b.val ≤ 0x8F
  else isTail b

/-- One character: its code point, or U+FFFD, and the bytes it takes. -/
def next (a : Fin 256) (rest : Bytes) : ℕ × ℕ :=
  if a.val < 0x80 then (a, 1)
  else if 0xC2 ≤ a.val ∧ a.val ≤ 0xDF then
    match rest with
    | b :: _ => if isTail b then ((a - 0xC0) * 0x40 + (b - 0x80), 2) else (0xFFFD, 1)
    | [] => (0xFFFD, 1)
  else if 0xE0 ≤ a.val ∧ a.val ≤ 0xEF then
    match rest with
    | b :: rest₁ =>
        if second a b then
          match rest₁ with
          | c :: _ =>
              if isTail c then ((a - 0xE0) * 0x1000 + (b - 0x80) * 0x40 + (c - 0x80), 3)
              else (0xFFFD, 2)
          | [] => (0xFFFD, 2)
        else (0xFFFD, 1)
    | [] => (0xFFFD, 1)
  else if 0xF0 ≤ a.val ∧ a.val ≤ 0xF4 then
    match rest with
    | b :: rest₁ =>
        if second a b then
          match rest₁ with
          | c :: rest₂ =>
              if isTail c then
                match rest₂ with
                | d :: _ =>
                    if isTail d then
                      ((a - 0xF0) * 0x40000 + (b - 0x80) * 0x1000 + (c - 0x80) * 0x40 + (d - 0x80), 4)
                    else (0xFFFD, 3)
                | [] => (0xFFFD, 3)
              else (0xFFFD, 2)
          | [] => (0xFFFD, 2)
        else (0xFFFD, 1)
    | [] => (0xFFFD, 1)
  else (0xFFFD, 1)

/-- The characters in at most `fuel` steps. -/
def decodeFrom : ℕ → Bytes → JsString
  | fuel + 1, a :: rest =>
      units (next a rest).1 ++ decodeFrom fuel (rest.drop ((next a rest).2 - 1))
  | _, _ => []

/-- `buffer.toString('utf8')`. -/
def decode (bs : Bytes) : JsString := decodeFrom bs.length bs

/-- `text.isWellFormed()`: every surrogate has its partner. -/
def isWellFormed : JsString → Bool
  | [] => true
  | c :: cs =>
      if isHigh c then
        match cs with
        | d :: ds => isLow d && isWellFormed ds
        | [] => false
      else !isLow c && decide (c < 0x10000) && isWellFormed cs

/-- A string without a lone surrogate. -/
def WellFormed (s : JsString) : Prop := isWellFormed s = true

/-! ### Round trip -/

/-- A code point that is not a surrogate. -/
def Scalar (n : ℕ) : Prop := n < 0xD800 ∨ 0xE000 ≤ n ∧ n < 0x110000

theorem val_byte {n : ℕ} (h : n < 256) : (Base64.byte n).val = n := by
  unfold Base64.byte
  rw [Fin.val_ofNat, Nat.mod_eq_of_lt h]

theorem isTail_byte {n : ℕ} (h : n < 0x40) : isTail (Base64.byte (0x80 + n)) = true := by
  have hval : (Base64.byte (0x80 + n)).val = 0x80 + n := val_byte (by omega)
  simp only [isTail, hval, Bool.and_eq_true, decide_eq_true_eq]
  omega

theorem second_of_tail {a : ℕ} {b : Fin 256} (h : isTail b = true) (h₁ : a = 0xE0 → 0xA0 ≤ b.val)
    (h₂ : a = 0xED → b.val ≤ 0x9F) (h₃ : a = 0xF0 → 0x90 ≤ b.val) (h₄ : a = 0xF4 → b.val ≤ 0x8F) :
    second a b = true := by
  have hrange : 0x80 ≤ b.val ∧ b.val ≤ 0xBF := by simpa [isTail] using h
  unfold second
  split_ifs <;> simp only [isTail, Bool.and_eq_true, decide_eq_true_eq] <;> omega

/-- The bytes of a character are read as that character. -/
theorem next_bytes {n : ℕ} (h : Scalar n) (rest : Bytes) :
    ∃ a t, bytes n = a :: t ∧ next a (t ++ rest) = (n, t.length + 1) := by
  have hmax : n < 0x110000 := by
    rcases h with h | h <;> omega
  unfold bytes
  split_ifs with h₁ h₂ h₃
  · refine ⟨_, _, rfl, ?_⟩
    have ha : (Base64.byte n).val = n := val_byte (by omega)
    simp only [next, ha, h₁, if_true, List.length_nil]
  · refine ⟨_, _, rfl, ?_⟩
    have ha : (Base64.byte (0xC0 + n / 0x40)).val = 0xC0 + n / 0x40 := val_byte (by omega)
    have hb : (Base64.byte (0x80 + n % 0x40)).val = 0x80 + n % 0x40 := val_byte (by omega)
    have htail : isTail (Base64.byte (0x80 + n % 0x40)) = true := isTail_byte (by omega)
    unfold next
    simp only [List.cons_append, List.nil_append, ha, hb, htail, if_true, List.length_cons,
      List.length_nil]
    rw [if_neg (by omega), if_pos (by omega)]
    have hval : (0xC0 + n / 0x40 - 0xC0) * 0x40 + (0x80 + n % 0x40 - 0x80) = n := by omega
    rw [hval]
  · refine ⟨_, _, rfl, ?_⟩
    have ha : (Base64.byte (0xE0 + n / 0x1000)).val = 0xE0 + n / 0x1000 := val_byte (by omega)
    have hb : (Base64.byte (0x80 + n / 0x40 % 0x40)).val = 0x80 + n / 0x40 % 0x40 :=
      val_byte (by omega)
    have hc : (Base64.byte (0x80 + n % 0x40)).val = 0x80 + n % 0x40 := val_byte (by omega)
    have htail : isTail (Base64.byte (0x80 + n % 0x40)) = true := isTail_byte (by omega)
    have hsecond : second (0xE0 + n / 0x1000) (Base64.byte (0x80 + n / 0x40 % 0x40)) = true := by
      refine second_of_tail (isTail_byte (by omega)) ?_ ?_ ?_ ?_ <;> rw [hb]
      · omega
      · rcases h with h | h <;> omega
      · omega
      · omega
    unfold next
    simp only [List.cons_append, List.nil_append, ha, hb, hc, htail, hsecond, if_true,
      List.length_cons, List.length_nil]
    rw [if_neg (by omega), if_neg (by omega), if_pos (by omega)]
    have hval : (0xE0 + n / 0x1000 - 0xE0) * 0x1000 + (0x80 + n / 0x40 % 0x40 - 0x80) * 0x40 +
        (0x80 + n % 0x40 - 0x80) = n := by omega
    rw [hval]
  · refine ⟨_, _, rfl, ?_⟩
    have ha : (Base64.byte (0xF0 + n / 0x40000)).val = 0xF0 + n / 0x40000 := val_byte (by omega)
    have hb : (Base64.byte (0x80 + n / 0x1000 % 0x40)).val = 0x80 + n / 0x1000 % 0x40 :=
      val_byte (by omega)
    have hc : (Base64.byte (0x80 + n / 0x40 % 0x40)).val = 0x80 + n / 0x40 % 0x40 :=
      val_byte (by omega)
    have hd : (Base64.byte (0x80 + n % 0x40)).val = 0x80 + n % 0x40 := val_byte (by omega)
    have htail : isTail (Base64.byte (0x80 + n / 0x40 % 0x40)) = true := isTail_byte (by omega)
    have htail' : isTail (Base64.byte (0x80 + n % 0x40)) = true := isTail_byte (by omega)
    have hsecond : second (0xF0 + n / 0x40000) (Base64.byte (0x80 + n / 0x1000 % 0x40)) = true := by
      refine second_of_tail (isTail_byte (by omega)) ?_ ?_ ?_ ?_ <;> rw [hb] <;> omega
    unfold next
    simp only [List.cons_append, List.nil_append, ha, hb, hc, hd, htail, htail', hsecond, if_true,
      List.length_cons, List.length_nil]
    rw [if_neg (by omega), if_neg (by omega), if_neg (by omega), if_pos (by omega)]
    have hval : (0xF0 + n / 0x40000 - 0xF0) * 0x40000 + (0x80 + n / 0x1000 % 0x40 - 0x80) * 0x1000 +
        (0x80 + n / 0x40 % 0x40 - 0x80) * 0x40 + (0x80 + n % 0x40 - 0x80) = n := by omega
    rw [hval]

/-- The bytes of code points are read as their code units. -/
theorem decodeFrom_flatMap {ns : List ℕ} (h : ∀ n ∈ ns, Scalar n) (fuel : ℕ)
    (hfuel : (ns.flatMap bytes).length ≤ fuel) :
    decodeFrom fuel (ns.flatMap bytes) = ns.flatMap units := by
  induction ns generalizing fuel with
  | nil => cases fuel <;> rfl
  | cons n ns ih =>
      obtain ⟨a, t, hbytes, hnext⟩ := next_bytes (h n (List.mem_cons_self ..)) (ns.flatMap bytes)
      rw [List.flatMap_cons, hbytes, List.cons_append] at hfuel ⊢
      rw [List.length_cons, List.length_append] at hfuel
      obtain ⟨f, rfl⟩ : ∃ f, fuel = f + 1 := ⟨fuel - 1, by omega⟩
      rw [decodeFrom, hnext, List.flatMap_cons]
      simp only [Nat.add_sub_cancel, List.drop_left]
      rw [ih (fun m hm => h m (List.mem_cons_of_mem _ hm)) f (by omega)]

/-- A well-formed string is its code points, none of them a surrogate. -/
theorem points_wellFormed {s : JsString} (h : WellFormed s) :
    (∀ n ∈ points s, Scalar n) ∧ (points s).flatMap units = s := by
  fun_induction points s with
  | case1 =>
      refine ⟨fun n hn => ?_, rfl⟩
      cases hn
  | case2 c hhigh d ds hlow ih =>
      have hhigh' : 0xD800 ≤ c ∧ c ≤ 0xDBFF := by simpa [isHigh] using hhigh
      have hlow' : 0xDC00 ≤ d ∧ d ≤ 0xDFFF := by simpa [isLow] using hlow
      unfold WellFormed isWellFormed at h
      rw [if_pos hhigh, Bool.and_eq_true] at h
      obtain ⟨hscalar, hunits⟩ := ih h.2
      refine ⟨fun n hn => ?_, ?_⟩
      · rcases List.mem_cons.1 hn with hn | hn
        · exact Or.inr (by omega)
        · exact hscalar n hn
      · rw [List.flatMap_cons, hunits]
        unfold units
        rw [if_neg (by omega), List.cons_append, List.cons_append, List.nil_append]
        have hfirst : 0xD800 + (0x10000 + (c - 0xD800) * 0x400 + (d - 0xDC00) - 0x10000) / 0x400 =
            c := by omega
        have hsecond : 0xDC00 + (0x10000 + (c - 0xD800) * 0x400 + (d - 0xDC00) - 0x10000) % 0x400 =
            d := by omega
        rw [hfirst, hsecond]
  | case3 c hhigh d ds hlow ih =>
      unfold WellFormed isWellFormed at h
      rw [if_pos hhigh, Bool.and_eq_true] at h
      exact absurd h.1 hlow
  | case4 c hhigh =>
      unfold WellFormed isWellFormed at h
      rw [if_pos hhigh] at h
      cases h
  | case5 c cs hhigh hlow ih =>
      unfold WellFormed isWellFormed at h
      rw [if_neg hhigh, hlow] at h
      cases h
  | case6 c cs hhigh hlow ih =>
      have hhigh' : ¬(0xD800 ≤ c ∧ c ≤ 0xDBFF) := by simpa [isHigh] using hhigh
      have hlow' : ¬(0xDC00 ≤ c ∧ c ≤ 0xDFFF) := by simpa [isLow] using hlow
      unfold WellFormed isWellFormed at h
      rw [if_neg hhigh, Bool.and_eq_true, Bool.and_eq_true, decide_eq_true_eq] at h
      obtain ⟨hscalar, hunits⟩ := ih h.2
      have hc := h.1.2
      refine ⟨fun n hn => ?_, ?_⟩
      · cases hn with
        | head =>
            unfold Scalar
            omega
        | tail _ hn => exact hscalar n hn
      · rw [List.flatMap_cons, hunits]
        unfold units
        rw [if_pos hc]
        rfl

/-- **A well-formed string is read back.** -/
theorem decode_encode {s : JsString} (h : WellFormed s) : decode (encode s) = s := by
  obtain ⟨hscalar, hunits⟩ := points_wellFormed h
  unfold decode encode
  rw [decodeFrom_flatMap hscalar _ (Nat.le_refl _), hunits]

/-- A string of seven-bit characters is well formed. -/
theorem wellFormed_of_ascii {s : JsString} (h : ∀ c ∈ s, c < 128) : WellFormed s := by
  induction s with
  | nil => rfl
  | cons c cs ih =>
      have hc := h c (List.mem_cons_self ..)
      have hhigh : isHigh c = false := by
        simp only [isHigh, Bool.and_eq_false_iff, decide_eq_false_iff_not]
        omega
      have hlow : isLow c = false := by
        simp only [isLow, Bool.and_eq_false_iff, decide_eq_false_iff_not]
        omega
      have hcs : isWellFormed cs = true := ih fun d hd => h d (List.mem_cons_of_mem _ hd)
      have hsmall : decide (c < 0x10000) = true := decide_eq_true (by omega)
      unfold WellFormed isWellFormed
      simp only [hhigh, hlow, hsmall, hcs]
      rfl

/-! ### Texts -/

/-- A string as a text; a surrogate without its other half becomes U+FFFD. -/
def text (s : JsString) : String := String.ofList ((points s).map Char.ofNat)

theorem points_units_append {n : ℕ} (h : Scalar n) (s : JsString) :
    points (units n ++ s) = n :: points s := by
  unfold Scalar at h
  unfold units
  split
  · next hsmall =>
      have hhigh : isHigh n = false := by
        simp only [isHigh, Bool.and_eq_false_iff, decide_eq_false_iff_not]
        omega
      have hlow : isLow n = false := by
        simp only [isLow, Bool.and_eq_false_iff, decide_eq_false_iff_not]
        omega
      rw [List.cons_append, List.nil_append, points.eq_def]
      dsimp only
      rw [hhigh, hlow, if_neg Bool.false_ne_true, if_neg Bool.false_ne_true]
  · next hlarge =>
      have hhigh : isHigh (0xD800 + (n - 0x10000) / 0x400) = true := by
        simp only [isHigh, Bool.and_eq_true, decide_eq_true_eq]
        omega
      have hlow : isLow (0xDC00 + (n - 0x10000) % 0x400) = true := by
        simp only [isLow, Bool.and_eq_true, decide_eq_true_eq]
        omega
      rw [List.cons_append, List.cons_append, List.nil_append, points.eq_def]
      dsimp only
      have hpoint : 0x10000 + (0xD800 + (n - 0x10000) / 0x400 - 0xD800) * 0x400 +
          (0xDC00 + (n - 0x10000) % 0x400 - 0xDC00) = n := by omega
      rw [hhigh, hlow, if_pos rfl, if_pos rfl, hpoint]

theorem scalar_toNat (c : Char) : Scalar c.toNat := by
  rcases c.valid with h | ⟨hlow, hhigh⟩
  · exact Or.inl h
  · exact Or.inr ⟨by have : (0xDFFF : ℕ) < c.toNat := hlow; omega, hhigh⟩

/-- A text is read back from its code units. -/
theorem text_js (s : String) : text (js s) = s := by
  have hpoints : ∀ cs : List Char, (points (cs.flatMap JsString.units)).map Char.ofNat = cs := by
    intro cs
    induction cs with
    | nil => rfl
    | cons c cs ih =>
        have hcons : points ((c :: cs).flatMap JsString.units) =
            c.toNat :: points (cs.flatMap JsString.units) := by
          rw [List.flatMap_cons]
          exact points_units_append (scalar_toNat c) _
        rw [hcons, List.map_cons, ih, Char.ofNat_toNat]
  unfold text js
  rw [hpoints, String.ofList_toList]

theorem js_injective : Function.Injective js := by
  intro a b h
  rw [← text_js a, h, text_js]

/-- A string whose code points have no replacement character is well formed. -/
theorem wellFormed_of_points {s : JsString} (hunits : s.Units) (h : 0xFFFD ∉ points s) :
    WellFormed s := by
  unfold WellFormed
  fun_induction points s with
  | case1 => rfl
  | case2 c hhigh d ds hlow ih =>
      have hds := ih (fun c' hc' => hunits c' (List.mem_cons_of_mem _ (List.mem_cons_of_mem _ hc')))
        (List.not_mem_of_not_mem_cons h)
      unfold isWellFormed
      rw [if_pos hhigh]
      show (isLow d && isWellFormed ds) = true
      rw [hlow, hds]
      rfl
  | case3 c hhigh d ds hlow ih => exact absurd List.mem_cons_self h
  | case4 c hhigh => exact absurd List.mem_cons_self h
  | case5 c cs hhigh hlow ih => exact absurd List.mem_cons_self h
  | case6 c cs hhigh hlow ih =>
      have hcs := ih (fun c' hc' => hunits c' (List.mem_cons_of_mem _ hc'))
        (List.not_mem_of_not_mem_cons h)
      have hc : decide (c < 0x10000) = true := decide_eq_true (hunits c List.mem_cons_self)
      unfold isWellFormed
      rw [if_neg hhigh, hcs, hc, Bool.eq_false_iff.2 hlow]
      rfl

/-- A well-formed string is the code units of its text. -/
theorem js_text {s : JsString} (h : WellFormed s) : js (text s) = s := by
  obtain ⟨hscalar, hunits⟩ := points_wellFormed h
  have hchars : ∀ ns : List ℕ, (∀ n ∈ ns, Scalar n) →
      (ns.map Char.ofNat).flatMap JsString.units = ns.flatMap units := by
    intro ns hns
    induction ns with
    | nil => rfl
    | cons n ns ih =>
        obtain ⟨hn, hrest⟩ := List.forall_mem_cons.1 hns
        have hchar : (Char.ofNat n).toNat = n := by
          unfold Scalar at hn
          have hvalid : n.isValidChar := by
            rcases hn with hn | hn
            · exact Or.inl hn
            · exact Or.inr ⟨by omega, hn.2⟩
          unfold Char.ofNat
          rw [dif_pos hvalid]
          rfl
        have hunit : JsString.units (Char.ofNat n) = units n := by
          unfold JsString.units units
          rw [hchar]
        rw [List.map_cons, List.flatMap_cons, List.flatMap_cons, ih hrest, hunit]
  unfold text js
  rw [String.toList_ofList, hchars _ hscalar, hunits]

/-- A string that is stored without a replacement character is stored as it is. -/
theorem js_text_of_kept {s : JsString} (hunits : s.Units) (h : 0xFFFD ∉ js (text s)) :
    js (text s) = s := by
  apply js_text
  apply wellFormed_of_points hunits
  intro hmem
  apply h
  unfold text js
  rw [String.toList_ofList]
  have hunit : JsString.units (Char.ofNat 0xFFFD) = [0xFFFD] := by decide
  exact List.mem_flatMap.2 ⟨_, List.mem_map_of_mem hmem, hunit ▸ List.mem_cons_self⟩

end Utf8
