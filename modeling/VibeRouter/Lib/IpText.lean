import Mathlib.Data.List.Basic
import Mathlib.Data.Nat.Notation
import Mathlib.Tactic.IntervalCases

/-! # The text of IP addresses

An IPv4 address is written in dotted decimal; an IPv6 address as the URL standard writes it, in
lower-case hexadecimal pieces with the first of the longest runs of zeros left out
(`Ipv6.text`).  An address whose first piece is not zero begins with that piece
(`text_of_first`). -/

namespace IpText

/-! ### IPv4 -/

structure Ipv4 where
  value : ℕ
  bound : value < 2 ^ 32

/-- `a.b.c.d` as a number. -/
def dotted (a b c d : ℕ) : ℕ := ((a * 256 + b) * 256 + c) * 256 + d

namespace Ipv4
variable (a : Ipv4)

/-- The address lies in the block of `net` with a prefix of `len` bits. -/
def In (net len : ℕ) : Prop := a.value / 2 ^ (32 - len) = net / 2 ^ (32 - len)

def text : List Char :=
  Nat.toDigits 10 (a.value / 2 ^ 24) ++ '.' :: (Nat.toDigits 10 (a.value / 2 ^ 16 % 256) ++
    '.' :: (Nat.toDigits 10 (a.value / 2 ^ 8 % 256) ++ '.' :: Nat.toDigits 10 (a.value % 256)))

theorem text_first {n : ℕ} (h : a.value / 2 ^ 24 = n) :
    ∃ rest, a.text = Nat.toDigits 10 n ++ '.' :: rest := by
  subst h
  exact ⟨_, rfl⟩

theorem text_second {n m : ℕ} (h : a.value / 2 ^ 16 = n * 256 + m) (hm : m < 256) :
    ∃ rest, a.text = Nat.toDigits 10 n ++ '.' :: (Nat.toDigits 10 m ++ '.' :: rest) := by
  have hfirst : a.value / 2 ^ 24 = n := by omega
  have hsecond : a.value / 2 ^ 16 % 256 = m := by omega
  unfold text
  rw [hfirst, hsecond]
  exact ⟨_, rfl⟩

end Ipv4

/-! ### IPv6 -/

/-- An address of eight pieces of sixteen bits. -/
structure Ipv6 where
  pieces : List ℕ
  eight : pieces.length = 8
  bound : ∀ p ∈ pieces, p < 65536

def leadingZeros (ps : List ℕ) : ℕ := (ps.takeWhile (· == 0)).length

def longestRun : List ℕ → ℕ
  | [] => 0
  | p :: ps => max (leadingZeros (p :: ps)) (longestRun ps)

/-- Where the first of the longest runs of zeros begins, if it has two pieces or more. -/
def compressAt (ps : List ℕ) : Option ℕ :=
  if longestRun ps ≤ 1 then none
  else (List.range ps.length).find? fun i => leadingZeros (ps.drop i) == longestRun ps

/-- The pieces with colons between them. -/
def join : List ℕ → List Char
  | [] => []
  | [p] => Nat.toDigits 16 p
  | p :: ps => Nat.toDigits 16 p ++ ':' :: join ps

def piecesText (ps : List ℕ) : List Char :=
  match compressAt ps with
  | none => join ps
  | some i => join (ps.take i) ++ "::".toList ++ join (ps.drop (i + longestRun ps))

namespace Ipv6

def text (a : Ipv6) : List Char := piecesText a.pieces

def first (a : Ipv6) : ℕ := a.pieces.headD 0

/-- The address lies in the block of `net::` with a prefix of `len` bits, sixteen at most. -/
def In (a : Ipv6) (net len : ℕ) : Prop := a.first / 2 ^ (16 - len) = net / 2 ^ (16 - len)

/-- The addresses that carry an IPv4 address: mapped, compatible, of the NAT64 prefix and of
6to4. -/
inductive Embeds (v : Ipv4) : List ℕ → Prop
  | mapped : Embeds v [0, 0, 0, 0, 0, 0xffff, v.value / 65536, v.value % 65536]
  | compatible : Embeds v [0, 0, 0, 0, 0, 0, v.value / 65536, v.value % 65536]
  | nat64 : Embeds v [0x64, 0xff9b, 0, 0, 0, 0, v.value / 65536, v.value % 65536]
  | sixToFour (rest : List ℕ) : Embeds v (0x2002 :: v.value / 65536 :: v.value % 65536 :: rest)

end Ipv6

/-! ### The letters -/

/-- A letter of the text of an IPv6 address. -/
def Written (c : Char) : Prop := c.toLower = c ∧ c ≠ '.' ∧ c ≠ '[' ∧ c ≠ ']'

instance (c : Char) : Decidable (Written c) := inferInstanceAs (Decidable (_ ∧ _))

theorem digitChar_written {d : ℕ} (h : d < 16) : Written d.digitChar := by
  interval_cases d <;> decide

theorem hex_written (n : ℕ) : ∀ c ∈ Nat.toDigits 16 n, Written c := by
  induction n using Nat.strongRecOn with
  | ind n ih =>
      intro c hc
      rw [Nat.toDigits_eq_if (by decide)] at hc
      split at hc
      · next h =>
        rw [List.mem_singleton.1 hc]
        exact digitChar_written h
      · rcases List.mem_append.1 hc with h | h
        · exact ih (n / 16) (by omega) c h
        · rw [List.mem_singleton.1 h]
          exact digitChar_written (Nat.mod_lt n (by decide))

theorem join_written (ps : List ℕ) : ∀ c ∈ join ps, Written c := by
  induction ps with
  | nil =>
      intro c hc
      cases hc
  | cons p ps ih =>
      cases ps with
      | nil => exact hex_written p
      | cons q ps =>
          intro c hc
          rcases List.mem_append.1 hc with h | h
          · exact hex_written p c h
          · rcases List.mem_cons.1 h with rfl | h
            · decide
            · exact ih c h

theorem piecesText_written (ps : List ℕ) : ∀ c ∈ piecesText ps, Written c := by
  unfold piecesText
  cases compressAt ps with
  | none => exact join_written ps
  | some i =>
      intro c hc
      rcases List.mem_append.1 hc with h | h
      · rcases List.mem_append.1 h with h | h
        · exact join_written _ c h
        · have hcolon : c = ':' := by simpa using h
          rw [hcolon]
          decide
      · exact join_written _ c h

/-! ### How a text begins -/

theorem join_append_colon (p : ℕ) (ps : List ℕ) (more : List Char) :
    ∃ rest, join (p :: ps) ++ ':' :: more = Nat.toDigits 16 p ++ ':' :: rest := by
  cases ps with
  | nil => exact ⟨more, rfl⟩
  | cons q ps => exact ⟨join (q :: ps) ++ ':' :: more, List.append_assoc ..⟩

theorem leadingZeros_of_ne {p : ℕ} (h : p ≠ 0) (ps : List ℕ) : leadingZeros (p :: ps) = 0 := by
  unfold leadingZeros
  rw [List.takeWhile_cons_of_neg (by simpa using h)]
  rfl

/-- A text begins with its first piece when that is not zero. -/
theorem text_of_first {p : ℕ} (q : ℕ) (ps : List ℕ) (h : p ≠ 0) :
    ∃ rest, piecesText (p :: q :: ps) = Nat.toDigits 16 p ++ ':' :: rest := by
  unfold piecesText
  cases hat : compressAt (p :: q :: ps) with
  | none => exact ⟨join (q :: ps), rfl⟩
  | some i =>
      have hrun : ¬ longestRun (p :: q :: ps) ≤ 1 := by
        intro hle
        rw [compressAt, if_pos hle] at hat
        cases hat
      rw [compressAt, if_neg hrun] at hat
      have hi := List.find?_some hat
      cases i with
      | zero =>
          rw [List.drop_zero, leadingZeros_of_ne h, beq_iff_eq] at hi
          omega
      | succ i =>
          obtain ⟨rest, hrest⟩ := join_append_colon p ((q :: ps).take i)
            (':' :: join ((p :: q :: ps).drop (i + 1 + longestRun (p :: q :: ps))))
          refine ⟨rest, ?_⟩
          rw [← hrest]
          exact List.append_assoc ..

theorem Ipv6.text_first (a : Ipv6) (h : a.first ≠ 0) :
    ∃ rest, a.text = Nat.toDigits 16 a.first ++ ':' :: rest := by
  obtain ⟨ps, height, hbound⟩ := a
  rcases ps with _ | ⟨p, _ | ⟨q, ps⟩⟩
  · cases height
  · cases height
  · exact text_of_first q ps h

/-- Eight pieces have a colon between them, or the two colons of a run left out. -/
theorem Ipv6.colon_mem (a : Ipv6) : ':' ∈ a.text := by
  obtain ⟨ps, height, hbound⟩ := a
  unfold Ipv6.text piecesText
  cases compressAt ps with
  | none =>
      rcases ps with _ | ⟨p, _ | ⟨q, ps⟩⟩
      · cases height
      · cases height
      · exact List.mem_append_right _ List.mem_cons_self
  | some i => exact List.mem_append_left _ (List.mem_append_right _ List.mem_cons_self)

theorem longestRun_pair (a b : ℕ) : longestRun [a, b] ≤ 2 := by
  by_cases ha : a = 0 <;> by_cases hb : b = 0 <;> simp [longestRun, leadingZeros, ha, hb]

theorem text_mapped (a b : ℕ) : piecesText [0, 0, 0, 0, 0, 0xffff, a, b] =
    "::ffff:".toList ++ (Nat.toDigits 16 a ++ ':' :: Nat.toDigits 16 b) := by
  have hrun : longestRun [0, 0, 0, 0, 0, 0xffff, a, b] = 5 := by
    have hpair := longestRun_pair a b
    unfold longestRun longestRun longestRun longestRun longestRun longestRun
    simp [leadingZeros]
    omega
  have hat : compressAt [0, 0, 0, 0, 0, 0xffff, a, b] = some 0 := by
    simp [compressAt, hrun, List.range_succ_eq_map, leadingZeros]
  rw [piecesText, hat, hrun]
  rfl

/-- A compatible address whose IPv4 address begins with sixteen bits that are not all zero. -/
theorem text_compatible {a : ℕ} (h : a ≠ 0) (b : ℕ) : piecesText [0, 0, 0, 0, 0, 0, a, b] =
    "::".toList ++ (Nat.toDigits 16 a ++ ':' :: Nat.toDigits 16 b) := by
  have hrun : longestRun [0, 0, 0, 0, 0, 0, a, b] = 6 := by
    have hpair := longestRun_pair a b
    unfold longestRun longestRun longestRun longestRun longestRun longestRun
    simp [leadingZeros, h]
    omega
  have hat : compressAt [0, 0, 0, 0, 0, 0, a, b] = some 0 := by
    simp [compressAt, hrun, List.range_succ_eq_map, leadingZeros, h]
  rw [piecesText, hat, hrun]
  rfl

example : piecesText [0x2001, 0xdb8, 0, 0, 1, 0, 0, 1] = "2001:db8::1:0:0:1".toList := by
  decide

end IpText
