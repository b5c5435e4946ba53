import VibeRouter.Lib.JsString

/-! # Bytes and base64

`Base64.encode` writes bytes in the standard alphabet, with padding.  `Base64.decode` reads as
`Buffer.from(text, 'base64')` does: it takes both alphabets and passes over every other
character. -/

/-- The contents of a buffer. -/
abbrev Bytes : Type := List (Fin 256)

namespace Base64

/-- The character of six bits. -/
def letter (n : ℕ) : ℕ :=
  if n < 26 then 65 + n
  else if n < 52 then 71 + n
  else if n < 62 then n - 4
  else if n = 62 then 43
  else 47

/-- The six bits a character stands for. -/
def sextet (c : ℕ) : Option ℕ :=
  if 65 ≤ c ∧ c ≤ 90 then some (c - 65)
  else if 97 ≤ c ∧ c ≤ 122 then some (c - 71)
  else if 48 ≤ c ∧ c ≤ 57 then some (c + 4)
  else if c = 43 ∨ c = 45 then some 62
  else if c = 47 ∨ c = 95 then some 63
  else none

/-- `buffer.toString('base64')`. -/
def encode : Bytes → JsString
  | [] => []
  | [a] => [letter (a / 4), letter (a % 4 * 16), 61, 61]
  | [a, b] => [letter (a / 4), letter (a % 4 * 16 + b / 16), letter (b % 16 * 4), 61]
  | a :: b :: c :: rest =>
      letter (a / 4) :: letter (a % 4 * 16 + b / 16) :: letter (b % 16 * 4 + c / 64) ::
        letter (c % 64) :: encode rest

/-- The byte of the lowest eight bits. -/
def byte (n : ℕ) : Fin 256 := Fin.ofNat 256 n

/-- The bytes that groups of six bits make up. -/
def join : List ℕ → Bytes
  | w :: x :: y :: z :: rest =>
      byte (w * 4 + x / 16) :: byte (x % 16 * 16 + y / 4) :: byte (y % 4 * 64 + z) :: join rest
  | [w, x, y] => [byte (w * 4 + x / 16), byte (x % 16 * 16 + y / 4)]
  | [w, x] => [byte (w * 4 + x / 16)]
  | _ => []

/-- `Buffer.from(text, 'base64')`. -/
def decode (text : JsString) : Bytes := join (text.filterMap sextet)

theorem sextet_letter {n : ℕ} (h : n < 64) : sextet (letter n) = some n := by
  unfold letter sextet
  split_ifs <;> first | omega | exact congrArg some (by omega)

theorem byte_eq {a : Fin 256} {n : ℕ} (h : n = a) : byte n = a := by
  unfold byte
  ext
  rw [Fin.val_ofNat, h, Nat.mod_eq_of_lt a.isLt]

/-- **Encoded bytes are decoded again.** -/
theorem decode_encode (bs : Bytes) : decode (encode bs) = bs := by
  fun_induction encode bs with
  | case1 => rfl
  | case2 a =>
      have ha := a.isLt
      unfold decode
      rw [List.filterMap_cons_some (sextet_letter (by omega)),
        List.filterMap_cons_some (sextet_letter (by omega))]
      simp only [join, List.cons.injEq, and_true, show sextet 61 = none from rfl,
        List.filterMap_cons_none, List.filterMap_nil]
      exact byte_eq (by omega)
  | case3 a b =>
      have ha := a.isLt
      have hb := b.isLt
      unfold decode
      rw [List.filterMap_cons_some (sextet_letter (by omega)),
        List.filterMap_cons_some (sextet_letter (by omega)),
        List.filterMap_cons_some (sextet_letter (by omega))]
      simp only [join, List.cons.injEq, and_true, show sextet 61 = none from rfl,
        List.filterMap_cons_none, List.filterMap_nil]
      exact ⟨byte_eq (by omega), byte_eq (by omega)⟩
  | case4 a b c rest ih =>
      have ha := a.isLt
      have hb := b.isLt
      have hc := c.isLt
      unfold decode at ih ⊢
      rw [List.filterMap_cons_some (sextet_letter (by omega)),
        List.filterMap_cons_some (sextet_letter (by omega)),
        List.filterMap_cons_some (sextet_letter (by omega)),
        List.filterMap_cons_some (sextet_letter (by omega))]
      simp only [join, ih, List.cons.injEq, and_true]
      exact ⟨byte_eq (by omega), byte_eq (by omega), byte_eq (by omega)⟩

/-- A base64 text is made of seven-bit characters. -/
theorem encode_lt {bs : Bytes} {c : ℕ} (h : c ∈ encode bs) : c < 128 := by
  have hletter : ∀ n < 64, letter n < 128 := by
    intro n hn
    unfold letter
    split_ifs <;> omega
  fun_induction encode bs with
  | case1 => cases h
  | case2 a =>
      have ha := a.isLt
      have h₁ := hletter (a / 4) (by omega)
      have h₂ := hletter (a % 4 * 16) (by omega)
      simp only [List.mem_cons, List.not_mem_nil, or_false] at h
      omega
  | case3 a b =>
      have ha := a.isLt
      have hb := b.isLt
      have h₁ := hletter (a / 4) (by omega)
      have h₂ := hletter (a % 4 * 16 + b / 16) (by omega)
      have h₃ := hletter (b % 16 * 4) (by omega)
      simp only [List.mem_cons, List.not_mem_nil, or_false] at h
      omega
  | case4 a b c' rest ih =>
      have ha := a.isLt
      have hb := b.isLt
      have hc := c'.isLt
      have h₁ := hletter (a / 4) (by omega)
      have h₂ := hletter (a % 4 * 16 + b / 16) (by omega)
      have h₃ := hletter (b % 16 * 4 + c' / 64) (by omega)
      have h₄ := hletter (c' % 64) (by omega)
      simp only [List.mem_cons] at h
      rcases h with h | h | h | h | h
      · omega
      · omega
      · omega
      · omega
      · exact ih h

end Base64
