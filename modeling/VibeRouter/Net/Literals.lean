import VibeRouter.Net.Ssrf
import VibeRouter.Lib.IpText
import Mathlib.Tactic.NormNum

/-! # Internal addresses as literals and as names

A URL parser gives an IP literal back in one spelling: dotted decimal, or pieces of lower-case
hexadecimal.  The check of base URLs knows the IPv4 ranges in that spelling, and of the IPv6
ranges `::1`, `fe80::/16` and `fc00::/7`; an IPv4 address inside an IPv6 address is not in dotted
decimal there and passes, and so do `::`, the rest of `fe80::/10` and a name of the machine itself
with a dot at its end (`cloud_rejects_iff`). -/

namespace VibeRouter

open IpText

/-! ### What must not be reached -/

/-- Loopback, unspecified, private and link-local, where the metadata service is. -/
def InternalV4 (a : Ipv4) : Prop :=
  a.In (dotted 127 0 0 0) 8 ∨ a.value = 0 ∨ a.In (dotted 10 0 0 0) 8 ∨
    a.In (dotted 172 16 0 0) 12 ∨ a.In (dotted 192 168 0 0) 16 ∨ a.In (dotted 169 254 0 0) 16

/-- Loopback, unspecified, link-local and unique local, and the addresses with an internal one
inside. -/
def InternalV6 (a : Ipv6) : Prop :=
  a.pieces = [0, 0, 0, 0, 0, 0, 0, 1] ∨ a.pieces = List.replicate 8 0 ∨ a.In 0xfe80 10 ∨
    a.In 0xfc00 7 ∨ ∃ v, InternalV4 v ∧ Ipv6.Embeds v a.pieces

/-- `localhost`, or a name under it, in letters that a host may have. -/
structure LocalName where
  letters : List Char
  isLocal : letters.map Char.toLower = "localhost".toList ∨
    ".localhost".toList <:+ letters.map Char.toLower
  plain : ∀ c ∈ letters, c ≠ ':' ∧ c ≠ '[' ∧ c ≠ ']'

inductive LocalHost
  | v4 (a : Ipv4) (internal : InternalV4 a)
  | v6 (a : Ipv6) (internal : InternalV6 a)
  | name (n : LocalName) (trailingDot : Bool)

namespace LocalHost

/-- The host as a parsed URL has it. -/
def hostname : LocalHost → String
  | v4 a _ => String.ofList a.text
  | v6 a _ => String.ofList ('[' :: a.text ++ [']'])
  | name n trailingDot => String.ofList (n.letters ++ if trailingDot then ['.'] else [])

/-- The hosts the check knows. -/
def Recognised : LocalHost → Prop
  | v4 _ _ => True
  | v6 a _ => a.pieces = [0, 0, 0, 0, 0, 0, 0, 1] ∨ a.first = 0xfe80 ∨ a.In 0xfc00 7
  | name _ trailingDot => trailingDot = false

end LocalHost

/-- What `isIP` says of the addresses as they are written, and of what has neither a colon nor the
letters of dotted decimal only. -/
structure AddressLaws [Platform] : Prop where
  v4 : ∀ a : Ipv4, Platform.isIP (String.ofList a.text) = true
  v6 : ∀ a : Ipv6, Platform.isIP (String.ofList a.text) = true
  other : ∀ s : String, Platform.isIP s = true →
    ':' ∈ s.toList ∨ ∀ c ∈ s.toList, c.isDigit = true ∨ c = '.'

/-! ### IPv4 -/

theorem classify_known {ip : List Char} (h : ip = "169.254.169.254".toList ∨
    ("127.".toList <+: ip ∨ ip = "0.0.0.0".toList ∨ ip = "::1".toList) ∨
    ("10.".toList <+: ip ∨ "192.168.".toList <+: ip) ∨ isPrivate172 ip = true ∨
    "169.254.".toList <+: ip) (fuel : ℕ) : classifyIpChars (fuel + 1) ip ≠ .public_ := by
  rw [classifyIpChars]
  split_ifs with h1 h2 h3 h4 h5
  iterate 5 exact HostClass.noConfusion
  all_goals exact absurd h (not_or.2 ⟨h1, not_or.2 ⟨h2, not_or.2 ⟨h3, not_or.2 ⟨h4, h5⟩⟩⟩⟩)

theorem classify_v4 {a : Ipv4} (h : InternalV4 a) (fuel : ℕ) :
    classifyIpChars (fuel + 1) a.text ≠ .public_ := by
  have hknown : a.text = "169.254.169.254".toList ∨
      ("127.".toList <+: a.text ∨ a.text = "0.0.0.0".toList ∨ a.text = "::1".toList) ∨
      ("10.".toList <+: a.text ∨ "192.168.".toList <+: a.text) ∨
      isPrivate172 a.text = true ∨ "169.254.".toList <+: a.text := by
    rcases h with h | h | h | h | h | h
    · obtain ⟨rest, hrest⟩ := a.text_first (n := 127) (by simpa [Ipv4.In, dotted] using h)
      exact Or.inr (Or.inl (Or.inl ⟨rest, by rw [hrest]; rfl⟩))
    · refine Or.inr (Or.inl (Or.inr (Or.inl ?_)))
      unfold Ipv4.text
      rw [h]
      rfl
    · obtain ⟨rest, hrest⟩ := a.text_first (n := 10) (by simpa [Ipv4.In, dotted] using h)
      exact Or.inr (Or.inr (Or.inl (Or.inl ⟨rest, by rw [hrest]; rfl⟩)))
    · have htop : a.value / 2 ^ 20 = 172 * 16 + 1 := by simpa [Ipv4.In, dotted] using h
      obtain ⟨k, hk, hsecond⟩ : ∃ k < 16, a.value / 2 ^ 16 = 172 * 256 + (16 + k) :=
        ⟨a.value / 2 ^ 16 - (172 * 256 + 16), by omega, by omega⟩
      obtain ⟨rest, hrest⟩ := a.text_second hsecond (by omega)
      refine Or.inr (Or.inr (Or.inr (Or.inl ?_)))
      rw [hrest]
      interval_cases k <;> simp [isPrivate172, Nat.toDigits, Nat.toDigitsCore, Nat.digitChar]
    · obtain ⟨rest, hrest⟩ := a.text_second (n := 192) (m := 168)
        (by simpa [Ipv4.In, dotted] using h) (by decide)
      exact Or.inr (Or.inr (Or.inl (Or.inr ⟨rest, by rw [hrest]; rfl⟩)))
    · obtain ⟨rest, hrest⟩ := a.text_second (n := 169) (m := 254)
        (by simpa [Ipv4.In, dotted] using h) (by decide)
      exact Or.inr (Or.inr (Or.inr (Or.inr ⟨rest, by rw [hrest]; rfl⟩)))
  exact classify_known hknown fuel

/-! ### IPv6 -/

section
variable {ip : List Char}

theorem not_prefix_of_dot (hw : ∀ c ∈ ip, Written c) {pre : List Char} (hdot : '.' ∈ pre) :
    ¬ pre <+: ip := by
  intro h
  exact (hw '.' (h.subset hdot)).2.1 rfl

/-- Of a text without a dot only the IPv6 tests are left. -/
theorem classify_v6 (hw : ∀ c ∈ ip, Written c) (fuel : ℕ) : classifyIpChars (fuel + 1) ip =
    if ip = "::1".toList then .loopback
    else if "fe80:".toList <+: ip then .linklocal
    else if "fc".toList <+: ip ∨ "fd".toList <+: ip then .private_
    else if "::ffff:".toList <+: ip then classifyIpChars fuel (ip.drop 7)
    else .public_ := by
  have hlower : ip.map Char.toLower = ip := by
    conv_rhs => rw [← List.map_id ip]
    exact List.map_congr_left fun c hc => (hw c hc).1
  have hdot : ∀ pre : List Char, '.' ∈ pre → ¬ pre <+: ip := fun pre => not_prefix_of_dot hw
  have hnot : ∀ s : List Char, '.' ∈ s → ip ≠ s := by
    rintro s hs rfl
    exact (hw '.' hs).2.1 rfl
  have h172 : isPrivate172 ip = false := by
    unfold isPrivate172
    simp only [hdot "172.1".toList (by decide), hdot "172.2".toList (by decide),
      hdot "172.3".toList (by decide), false_and, or_self, decide_false]
  rw [classifyIpChars]
  rw [hlower, h172, if_neg (hnot _ (by decide))]
  simp only [hdot "127.".toList (by decide), hnot "0.0.0.0".toList (by decide),
    hdot "10.".toList (by decide), hdot "192.168.".toList (by decide),
    hdot "169.254.".toList (by decide), false_or, or_self, if_false, Bool.false_eq_true]

/-- Nothing that begins with another letter than `f` or a colon is internal. -/
theorem classify_of_head (hw : ∀ c ∈ ip, Written c) {c : Char} (hc : ip.head? = some c)
    (hf : c ≠ 'f') (hcolon : c ≠ ':') (fuel : ℕ) : classifyIpChars (fuel + 1) ip = .public_ := by
  cases ip with
  | nil => cases hc
  | cons d ip =>
      obtain rfl : d = c := by simpa using hc
      rw [classify_v6 hw]
      simp [List.cons_prefix_cons, Ne.symm hf, Ne.symm hcolon, hcolon]

end

theorem head_digits (n : ℕ) (rest : List Char) :
    (Nat.toDigits 16 n ++ rest).head? = (Nat.toDigits 16 n).head? :=
  List.head?_append_of_ne_nil _ Nat.toDigits_ne_nil

/-- The upper half of an internal IPv4 address. -/
theorem internal_upper {v : Ipv4} (h : InternalV4 v) :
    v.value / 65536 / 256 = 0x7f ∨ v.value = 0 ∨ v.value / 65536 / 256 = 0xa ∨
      v.value / 65536 / 16 = 0xac1 ∨ v.value / 65536 = 0xc0a8 ∨ v.value / 65536 = 0xa9fe := by
  rcases h with h | h | h | h | h | h
  · have htop : v.value / 2 ^ 24 = 127 := by simpa [Ipv4.In, dotted] using h
    omega
  · exact Or.inr (Or.inl h)
  · have htop : v.value / 2 ^ 24 = 10 := by simpa [Ipv4.In, dotted] using h
    omega
  · have htop : v.value / 2 ^ 20 = 172 * 16 + 1 := by simpa [Ipv4.In, dotted] using h
    omega
  · have htop : v.value / 65536 = 0xc0a8 := by simpa [Ipv4.In, dotted] using h
    omega
  · have htop : v.value / 65536 = 0xa9fe := by simpa [Ipv4.In, dotted] using h
    omega

/-- The upper half of an internal IPv4 address begins with another letter than `f`. -/
theorem internal_head {v : Ipv4} (h : InternalV4 v) :
    ∃ c, (Nat.toDigits 16 (v.value / 65536)).head? = some c ∧ c ≠ 'f' ∧ c ≠ ':' := by
  have h127 : ∀ k < 256, (Nat.toDigits 16 (0x7f00 + k)).head? = some '7' := by decide +kernel
  have h10 : ∀ k < 256, (Nat.toDigits 16 (0xa00 + k)).head? = some 'a' := by decide +kernel
  have h172 : ∀ k < 16, (Nat.toDigits 16 (0xac10 + k)).head? = some 'a' := by decide
  rcases internal_upper h with h | h | h | h | h | h
  · obtain ⟨k, hk, hhi⟩ : ∃ k < 256, v.value / 65536 = 0x7f00 + k :=
      ⟨v.value / 65536 - 0x7f00, by omega, by omega⟩
    exact ⟨'7', by rw [hhi, h127 k hk], by decide, by decide⟩
  · exact ⟨'0', by rw [h]; rfl, by decide, by decide⟩
  · obtain ⟨k, hk, hhi⟩ : ∃ k < 256, v.value / 65536 = 0xa00 + k :=
      ⟨v.value / 65536 - 0xa00, by omega, by omega⟩
    exact ⟨'a', by rw [hhi, h10 k hk], by decide, by decide⟩
  · obtain ⟨k, hk, hhi⟩ : ∃ k < 16, v.value / 65536 = 0xac10 + k :=
      ⟨v.value / 65536 - 0xac10, by omega, by omega⟩
    exact ⟨'a', by rw [hhi, h172 k hk], by decide, by decide⟩
  · exact ⟨'c', by rw [h]; rfl, by decide, by decide⟩
  · exact ⟨'a', by rw [h]; rfl, by decide, by decide⟩

/-- An IPv4 address inside an IPv6 address is not seen. -/
theorem classify_embedded {v : Ipv4} (h : InternalV4 v) {ps : List ℕ} (he : Ipv6.Embeds v ps)
    (hne : ps ≠ [0, 0, 0, 0, 0, 0, 0, 1]) (fuel : ℕ) :
    classifyIpChars (fuel + 2) (piecesText ps) = .public_ := by
  obtain ⟨c, hc, hf, hcolon⟩ := internal_head h
  have hw := piecesText_written ps
  cases he with
  | mapped =>
      rw [text_mapped] at hw ⊢
      have hinner : ∀ d ∈ Nat.toDigits 16 (v.value / 65536) ++ ':' ::
          Nat.toDigits 16 (v.value % 65536), Written d :=
        fun d hd => hw d (List.mem_append_right _ hd)
      rw [classify_v6 hw, if_neg (by simp), if_neg (by simp), if_neg (by simp),
        if_pos ⟨_, rfl⟩]
      exact classify_of_head hinner (by rw [head_digits]; exact hc) hf hcolon fuel
  | compatible =>
      by_cases hhi : v.value / 65536 = 0
      · -- Only `0.0.0.0` is internal among the addresses that begin with two zeros.
        have hzero : v.value = 0 := by
          rcases internal_upper h with h | h | h | h | h | h <;> omega
        rw [classify_v6 hw, hzero]
        rfl
      · rw [text_compatible hhi] at hw ⊢
        obtain ⟨ds, hds⟩ : ∃ ds, Nat.toDigits 16 (v.value / 65536) = c :: ds := by
          obtain ⟨d, ds, hds⟩ := List.exists_cons_of_ne_nil
            (Nat.toDigits_ne_nil (n := v.value / 65536) (b := 16))
          rw [hds] at hc
          obtain rfl : d = c := by simpa using hc
          exact ⟨ds, hds⟩
        rw [classify_v6 hw, hds]
        simp [List.cons_prefix_cons, Ne.symm hf]
  | nat64 =>
      obtain ⟨rest, hrest⟩ := text_of_first (p := 0x64) 0xff9b
        [0, 0, 0, 0, v.value / 65536, v.value % 65536] (by decide)
      exact classify_of_head (c := '6') hw (by rw [hrest]; rfl) (by decide) (by decide) (fuel + 1)
  | sixToFour more =>
      obtain ⟨rest, hrest⟩ := text_of_first (p := 0x2002) (v.value / 65536)
        (v.value % 65536 :: more) (by decide)
      exact classify_of_head (c := '2') hw (by rw [hrest]; rfl) (by decide) (by decide) (fuel + 1)

theorem classify_linklocal {a : Ipv6} (h : a.In 0xfe80 10) (fuel : ℕ) :
    classifyIpChars (fuel + 1) a.text ≠ .public_ ↔ a.first = 0xfe80 := by
  have htop : a.first / 2 ^ 6 = 0xfe80 / 2 ^ 6 := h
  obtain ⟨k, hk, hfirst⟩ : ∃ k < 64, a.first = 0xfe80 + k :=
    ⟨a.first - 0xfe80, by omega, by omega⟩
  have hrange : ∀ k < 64, ∃ c d, Nat.toDigits 16 (0xfe80 + k) = ['f', 'e', c, d] ∧
      (c = '8' ∧ d = '0' ↔ k = 0) := by
    intro k hk
    interval_cases k <;> exact ⟨_, _, rfl, by decide⟩
  obtain ⟨c, d, hdigits, hzero⟩ := hrange k hk
  obtain ⟨rest, hrest⟩ := a.text_first (by omega)
  rw [hfirst, hdigits] at hrest
  have hw := piecesText_written a.pieces
  change ∀ c ∈ a.text, Written c at hw
  rw [classify_v6 hw, hrest, hfirst]
  have hk0 : 0xfe80 + k = 0xfe80 ↔ k = 0 := by omega
  rw [hk0, ← hzero]
  by_cases hcd : c = '8' ∧ d = '0'
  · simp [hcd, List.cons_prefix_cons]
  · have hcd' : ¬ ('8' = c ∧ '0' = d) := fun h => hcd ⟨h.1.symm, h.2.symm⟩
    simp [hcd, hcd', List.cons_prefix_cons]

theorem classify_uniqueLocal {a : Ipv6} (h : a.In 0xfc00 7) (fuel : ℕ) :
    classifyIpChars (fuel + 1) a.text ≠ .public_ := by
  have htop : a.first / 2 ^ 9 = 0xfc00 / 2 ^ 9 := h
  obtain ⟨k, hk, hfirst⟩ : ∃ k < 512, a.first = 0xfc00 + k :=
    ⟨a.first - 0xfc00, by omega, by omega⟩
  have hrange : ∀ k < 512, (Nat.toDigits 16 (0xfc00 + k)).take 2 = ['f', 'c'] ∨
      (Nat.toDigits 16 (0xfc00 + k)).take 2 = ['f', 'd'] := by decide +kernel
  obtain ⟨rest, hrest⟩ := a.text_first (by omega)
  rw [hfirst] at hrest
  have hw := piecesText_written a.pieces
  change ∀ c ∈ a.text, Written c at hw
  have hprefix : "fc".toList <+: a.text ∨ "fd".toList <+: a.text := by
    rw [hrest]
    rcases hrange k hk with h | h
    · exact Or.inl ((h ▸ List.take_prefix 2 _).trans (List.prefix_append ..))
    · exact Or.inr ((h ▸ List.take_prefix 2 _).trans (List.prefix_append ..))
  rw [classify_v6 hw, if_pos hprefix]
  split_ifs <;> exact HostClass.noConfusion

theorem classify_v6_iff {a : Ipv6} (h : InternalV6 a) (fuel : ℕ) :
    classifyIpChars (fuel + 2) a.text ≠ .public_ ↔ (LocalHost.v6 a h).Recognised := by
  unfold LocalHost.Recognised
  by_cases hone : a.pieces = [0, 0, 0, 0, 0, 0, 0, 1]
  · have hpublic : classifyIpChars (fuel + 2) a.text ≠ .public_ := by
      unfold Ipv6.text
      rw [hone, classify_v6 (piecesText_written _)]
      exact HostClass.noConfusion
    exact iff_of_true hpublic (Or.inl hone)
  by_cases hula : a.In 0xfc00 7
  · exact iff_of_true (classify_uniqueLocal hula _) (Or.inr (Or.inr hula))
  rcases h with h | h | h | h | ⟨v, hv, he⟩
  · exact absurd h hone
  · have hpublic : classifyIpChars (fuel + 2) a.text = .public_ := by
      unfold Ipv6.text
      rw [h, classify_v6 (piecesText_written _)]
      rfl
    have hfirst : a.first = 0 := by
      unfold Ipv6.first
      rw [h]
      rfl
    simp [hpublic, hone, hula, hfirst]
  · rw [classify_linklocal h]
    simp [hone, hula]
  · exact absurd h hula
  · have hpublic : classifyIpChars (fuel + 2) a.text = .public_ :=
      classify_embedded hv he hone fuel
    have hfirst : a.first ≠ 0xfe80 := by
      unfold Ipv6.first
      generalize hps : a.pieces = ps at he
      cases he <;> simp
    simp [hpublic, hone, hula, hfirst]

/-! ### The hosts -/

theorem stripBrackets_bracketed (cs : List Char) :
    stripBrackets (String.ofList ('[' :: cs ++ [']'])) = String.ofList cs := by
  simp [stripBrackets]

theorem stripBrackets_plain {cs : List Char} (h : ∀ c ∈ cs, c ≠ '[' ∧ c ≠ ']') :
    stripBrackets (String.ofList cs) = String.ofList cs := by
  have hhead : cs.head? ≠ some '[' := fun h' => (h '[' (List.mem_of_mem_head? h')).1 rfl
  have hlast : cs.getLast? ≠ some ']' := fun h' => (h ']' (List.mem_of_getLast? h')).2 rfl
  simp [stripBrackets, hhead, hlast]

theorem v4_letters (a : Ipv4) : ∀ c ∈ a.text, c.isDigit = true ∨ c = '.' := by
  have hdigits : ∀ n, ∀ c ∈ Nat.toDigits 10 n, c.isDigit = true :=
    fun n c => Nat.isDigit_of_mem_toDigits (by decide) (by decide)
  intro c hc
  simp only [Ipv4.text, List.mem_append, List.mem_cons] at hc
  rcases hc with h | rfl | h | rfl | h | rfl | h
  · exact Or.inl (hdigits _ c h)
  · exact Or.inr rfl
  · exact Or.inl (hdigits _ c h)
  · exact Or.inr rfl
  · exact Or.inl (hdigits _ c h)
  · exact Or.inr rfl
  · exact Or.inl (hdigits _ c h)

namespace LocalName
variable (n : LocalName)

/-- A name of the machine itself has an `l`, which no address in dotted decimal has. -/
theorem has_l : ∃ c ∈ n.letters, c.toLower = 'l' := by
  have hmem : 'l' ∈ n.letters.map Char.toLower := by
    rcases n.isLocal with h | h
    · rw [h]
      decide
    · exact h.subset (by decide)
  exact List.mem_map.1 hmem

theorem not_suffix_dot {s cs : List Char} (hne : s ≠ []) (hs : s.getLast? ≠ some '.') :
    ¬ s <:+ cs ++ ['.'] := by
  rintro ⟨t, ht⟩
  have hlast := congrArg List.getLast? ht
  rw [List.getLast?_append_of_ne_nil _ hne, List.getLast?_concat] at hlast
  exact hs hlast

end LocalName

section
variable [Platform]

theorem AddressLaws.not_isIP (laws : AddressLaws) (n : LocalName) (trailingDot : Bool) :
    Platform.isIP (LocalHost.name n trailingDot).hostname = false := by
  rw [Bool.eq_false_iff]
  intro hip
  have hother := laws.other _ hip
  simp only [LocalHost.hostname, String.toList_ofList] at hother
  rcases hother with h | h
  · rcases List.mem_append.1 h with h | h
    · exact (n.plain _ h).1 rfl
    · cases trailingDot <;> simp at h
  · obtain ⟨c, hc, hl⟩ := n.has_l
    rcases h c (List.mem_append_left _ hc) with hdigit | rfl
    · have hbounds : 48 ≤ c.toNat ∧ c.toNat ≤ 57 := by
        simpa [Char.isDigit, UInt32.le_iff_toNat_le] using hdigit
      have hsame : c.toLower = c := by
        unfold Char.toLower
        rw [dif_neg]
        simp only [UInt32.le_iff_toNat_le, ge_iff_le, not_and, not_le]
        intro hA
        have : (65 : ℕ) ≤ c.toNat := by simpa using hA
        omega
      rw [← hsame, hl] at hbounds
      exact absurd hbounds.2 (by decide)
    · exact absurd hl (by decide)

theorem classifyHost_name (laws : AddressLaws) (n : LocalName) (trailingDot : Bool) :
    classifyHost (LocalHost.name n trailingDot).hostname ≠ .public_ ↔ trailingDot = false := by
  have hip := laws.not_isIP n trailingDot
  have hplain : ∀ c ∈ n.letters ++ (if trailingDot then ['.'] else []), c ≠ '[' ∧ c ≠ ']' := by
    intro c hc
    rcases List.mem_append.1 hc with h | h
    · exact (n.plain c h).2
    · cases trailingDot
      · cases h
      · rw [List.mem_singleton.1 h]
        decide
  unfold LocalHost.hostname at hip ⊢
  unfold classifyHost
  dsimp only
  rw [stripBrackets_plain hplain, hip, if_neg Bool.false_ne_true, String.toList_ofList]
  cases trailingDot with
  | false =>
      rw [if_neg Bool.false_ne_true, List.append_nil, if_pos n.isLocal]
      exact iff_of_true HostClass.noConfusion rfl
  | true =>
      rw [if_pos rfl, List.map_append]
      have hlocalhost : n.letters.map Char.toLower ++ ['.'].map Char.toLower ≠
          "localhost".toList := by
        intro h
        have hlast := congrArg List.getLast? h
        rw [List.map_singleton, List.getLast?_concat] at hlast
        exact absurd hlast (by decide)
      have hsuffix : ∀ s : List Char, s ≠ [] → s.getLast? ≠ some '.' →
          ¬ s <:+ n.letters.map Char.toLower ++ ['.'].map Char.toLower :=
        fun s hne hs => LocalName.not_suffix_dot hne hs
      have hdot : '.' ∈ n.letters.map Char.toLower ++ ['.'].map Char.toLower :=
        List.mem_append_right _ (by decide)
      rw [if_neg (not_or.2 ⟨hlocalhost, hsuffix _ (by decide) (by decide)⟩),
        if_neg (not_or.2 ⟨hsuffix _ (by decide) (by decide),
          not_or.2 ⟨hsuffix _ (by decide) (by decide), hsuffix _ (by decide) (by decide)⟩⟩),
        if_neg (not_not.2 hdot)]
      simp

theorem classifyHost_iff (laws : AddressLaws) (host : LocalHost) :
    classifyHost host.hostname ≠ .public_ ↔ host.Recognised := by
  cases host with
  | v4 a internal =>
      have hplain : ∀ c ∈ a.text, c ≠ '[' ∧ c ≠ ']' := by
        intro c hc
        constructor
        all_goals
          rintro rfl
          exact absurd (v4_letters a _ hc) (by decide)
      unfold LocalHost.hostname classifyHost
      rw [stripBrackets_plain hplain, if_pos (laws.v4 a), classifyIp, String.toList_ofList]
      exact iff_of_true (classify_v4 internal _) trivial
  | v6 a internal =>
      unfold LocalHost.hostname classifyHost
      rw [stripBrackets_bracketed, if_pos (laws.v6 a), classifyIp, String.toList_ofList]
      obtain ⟨fuel, hfuel⟩ : ∃ fuel, a.text.length = fuel + 1 := by
        have hpos := List.length_pos_of_mem a.colon_mem
        exact ⟨a.text.length - 1, by omega⟩
      rw [hfuel]
      exact classify_v6_iff internal fuel
  | name n trailingDot => exact classifyHost_name laws n trailingDot

/-! ### The check -/

theorem checkBaseUrl_cloud {kind : ProviderKind} (hkind : isLocalKind kind = false)
    {baseUrl : String} {url : Url} (hurl : Platform.parseUrl baseUrl = some url) :
    (checkBaseUrl kind baseUrl).ok = false ↔
      url.protocol ≠ "https:" ∨ classifyHost url.hostname ≠ .public_ := by
  unfold checkBaseUrl
  rw [hurl]
  simp only [hkind, Bool.false_eq_true, if_false]
  split_ifs with hprotocol hclass
  · exact iff_of_true rfl (Or.inl hprotocol)
  · exact iff_of_true rfl (Or.inr hclass)
  · exact iff_of_false (by simp) (not_or.2 ⟨hprotocol, hclass⟩)

/-- A base URL of a cloud provider whose host is internal, in whatever spelling, is rejected
exactly when it is not `https` or the check knows the host. -/
theorem cloud_rejects_iff (laws : AddressLaws) {kind : ProviderKind}
    (hkind : isLocalKind kind = false) {baseUrl : String} (url : Url)
    (hurl : Platform.parseUrl baseUrl = some url) (host : LocalHost)
    (hhost : url.hostname = host.hostname) :
    (checkBaseUrl kind baseUrl).ok = false ↔ url.protocol ≠ "https:" ∨ host.Recognised := by
  rw [checkBaseUrl_cloud hkind hurl, hhost, classifyHost_iff laws]

end

/-! ### Samples -/

namespace Sample

/-- A platform that takes the host up to the first slash. -/
@[reducible] def urls : Platform :=
  { Platform.ofDigests [] ⟨"", by decide⟩ with
    parseUrl := fun text =>
      if "https://".toList <+: text.toList then
        some ⟨"https:", String.ofList ((text.toList.drop 8).takeWhile (· != '/'))⟩
      else none }

theorem urls_laws : letI := urls
    AddressLaws := by
  let := urls
  have hip : ∀ s : String, Platform.isIP s = true ↔
      (∀ c ∈ s.toList, c.isDigit = true ∨ c = '.') ∨ ':' ∈ s.toList := by
    intro s
    change (s.toList.all (fun c => c.isDigit || c == '.') || s.toList.contains ':') = true ↔ _
    simp
  refine ⟨fun a => ?_, fun a => ?_, fun s h => ?_⟩
  · rw [hip, String.toList_ofList]
    exact Or.inl (v4_letters a)
  · rw [hip, String.toList_ofList]
    exact Or.inr a.colon_mem
  · exact ((hip s).1 h).symm

/-- The metadata service. -/
def metadataService : Ipv4 := ⟨dotted 169 254 169 254, by decide⟩

theorem metadataService_internal : InternalV4 metadataService := by
  unfold InternalV4 Ipv4.In
  decide

/-- The metadata service as an IPv4-mapped address. -/
def mappedService : Ipv6 := ⟨[0, 0, 0, 0, 0, 0xffff, 0xa9fe, 0xa9fe], rfl, by decide⟩

theorem mappedService_internal : InternalV6 mappedService :=
  Or.inr (Or.inr (Or.inr (Or.inr ⟨metadataService, metadataService_internal, .mapped⟩)))

theorem metadataService_rejected : letI := urls
    (checkBaseUrl .anthropic "https://169.254.169.254/v1").ok = false := by
  let := urls
  exact (cloud_rejects_iff urls_laws rfl ⟨"https:", "169.254.169.254"⟩
    (by decide) (.v4 metadataService metadataService_internal)
    (by decide)).2 (Or.inr trivial)

/-- The metadata service in an IPv4-mapped address is accepted, and so is the machine itself by a
name with a dot at its end. -/
theorem mappedService_accepted : letI := urls
    (¬ ∀ (kind : ProviderKind) (baseUrl : String) (url : Url) (host : LocalHost),
      isLocalKind kind = false → Platform.parseUrl baseUrl = some url →
      url.hostname = host.hostname → (checkBaseUrl kind baseUrl).ok = false) ∧
    (checkBaseUrl .openai_compat "https://[::ffff:a9fe:a9fe]/latest").ok = true ∧
    (checkBaseUrl .openai_compat "https://localhost./v1").ok = true := by
  let := urls
  have hmapped : (checkBaseUrl .openai_compat "https://[::ffff:a9fe:a9fe]/latest").ok = true := by
    decide
  refine ⟨fun h => ?_, hmapped, by decide⟩
  have hrejected := h .openai_compat "https://[::ffff:a9fe:a9fe]/latest"
    ⟨"https:", "[::ffff:a9fe:a9fe]"⟩ (.v6 mappedService mappedService_internal) rfl
    (by decide) (by decide)
  rw [hmapped] at hrejected
  cases hrejected

end Sample

end VibeRouter
