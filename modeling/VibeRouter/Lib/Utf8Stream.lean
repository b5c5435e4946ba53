import VibeRouter.Lib.Incremental
import VibeRouter.Lib.Utf8

/-! # Decoding UTF-8 as it comes

A character is taken from the front of a buffer when it is complete, or cannot be completed any more
(`Utf8.characters`).  `Utf8.textDecoder` decodes as `new TextDecoder()` does with `stream: true`.  The
bytes of a well-formed string are decoded to that string (`textDecoder_encode`). -/

/-! ### Decoders -/

/-- Cut all records from what has come, and keep the rest. -/
def Splitter.decoder {α β : Type} (p : Splitter α (List β)) (h : p.next [] = none)
    (flush : List α → List β) : StreamDecoder α β where
  State := { buffer : List α // p.next buffer = none }
  start := ⟨[], h⟩
  decode s xs := ((p.drain (s.1 ++ xs)).1.flatten, ⟨(p.drain (s.1 ++ xs)).2, p.next_drain _⟩)
  flush s := flush s.1
  decode_nil := by
    intro s
    obtain ⟨buffer, hbuffer⟩ := s
    simp only [List.append_nil, p.drain_of_none hbuffer, List.flatten_nil]
  decode_append := by
    intro s xs ys
    simp only [← List.append_assoc, p.drain_append (s.1 ++ xs), List.flatten_append]

namespace StreamDecoder

variable {α β : Type} [DecidableEq β]

/-- Leave out a mark at the beginning of the output. -/
def unmark (mark : β) (started : Bool) (text : List β) : List β :=
  if started = false ∧ text.head? = some mark then text.tail else text

/-- The same decoder, but for a mark at the very beginning. -/
def withoutMark (d : StreamDecoder α β) (mark : β) : StreamDecoder α β where
  State := d.State × Bool
  start := (d.start, false)
  decode s xs :=
    (unmark mark s.2 (d.decode s.1 xs).1, ((d.decode s.1 xs).2, s.2 || !(d.decode s.1 xs).1.isEmpty))
  flush s := d.flush s.1
  decode_nil := by
    intro s
    obtain ⟨s, started⟩ := s
    simp [d.decode_nil, unmark]
  decode_append := by
    intro s xs ys
    obtain ⟨s, started⟩ := s
    simp only [d.decode_append]
    cases (d.decode s xs).1 with
    | nil => simp [unmark]
    | cons c cs => cases started <;> by_cases hc : c = mark <;> simp [unmark, hc]

end StreamDecoder

namespace Utf8

/-! ### Characters -/

/-- The bytes begin a character and end within it. -/
def begun (a : Fin 256) (rest : Bytes) : Bool :=
  if 0xC2 ≤ a.val ∧ a.val ≤ 0xDF then rest.isEmpty
  else if 0xE0 ≤ a.val ∧ a.val ≤ 0xEF then
    match rest with
    | [] => true
    | [b] => second a b
    | _ => false
  else if 0xF0 ≤ a.val ∧ a.val ≤ 0xF4 then
    match rest with
    | [] => true
    | [b] => second a b
    | [b, c] => second a b && isTail c
    | _ => false
  else false

/-- The first character stays the same when more comes, once it is complete. -/
theorem next_append {a : Fin 256} {rest : Bytes} (more : Bytes) (h : begun a rest = false) :
    next a (rest ++ more) = next a rest ∧ begun a (rest ++ more) = false := by
  unfold begun at h ⊢
  unfold next
  by_cases htwo : 0xC2 ≤ a.val ∧ a.val ≤ 0xDF
  · simp only [if_pos htwo] at h ⊢
    cases rest with
    | nil => cases h
    | cons b rest => exact ⟨rfl, rfl⟩
  simp only [if_neg htwo] at h ⊢
  by_cases hthree : 0xE0 ≤ a.val ∧ a.val ≤ 0xEF
  · simp only [if_pos hthree] at h ⊢
    rcases rest with _ | ⟨b, _ | ⟨c, rest⟩⟩
    · cases h
    · have hsecond : second a b = false := h
      cases more with
      | nil => exact ⟨rfl, h⟩
      | cons c more => simp [hsecond]
    · exact ⟨rfl, rfl⟩
  simp only [if_neg hthree] at h ⊢
  by_cases hfour : 0xF0 ≤ a.val ∧ a.val ≤ 0xF4
  · simp only [if_pos hfour] at h ⊢
    rcases rest with _ | ⟨b, _ | ⟨c, _ | ⟨d, rest⟩⟩⟩
    · cases h
    · have hsecond : second a b = false := h
      rcases more with _ | ⟨c, _ | ⟨d, more⟩⟩ <;> simp [hsecond]
    · have hboth : (second a b && isTail c) = false := h
      rw [Bool.and_eq_false_iff] at hboth
      rcases more with _ | ⟨d, more⟩
      · exact ⟨rfl, h⟩
      · rcases hboth with hsecond | htail
        · simp [hsecond]
        · simp [htail]
    · exact ⟨rfl, rfl⟩
  · simp [hfour]

/-- No more is taken than there is. -/
theorem next_le (a : Fin 256) (rest : Bytes) : (next a rest).2 - 1 ≤ rest.length := by
  unfold next
  split_ifs
  · exact Nat.zero_le _
  · rcases rest with _ | ⟨b, rest⟩
    · exact Nat.le_refl _
    · dsimp only
      split_ifs <;> simp
  · rcases rest with _ | ⟨b, _ | ⟨c, rest⟩⟩
    · exact Nat.le_refl _
    · dsimp only
      split_ifs <;> simp
    · dsimp only
      split_ifs <;> simp
  · rcases rest with _ | ⟨b, _ | ⟨c, _ | ⟨d, rest⟩⟩⟩
    · exact Nat.le_refl _
    · dsimp only
      split_ifs <;> simp
    · dsimp only
      split_ifs <;> simp
    · dsimp only
      split_ifs <;> simp
  · exact Nat.zero_le _

/-- The first character, unless it is still to be completed. -/
def nextCharacter : Bytes → Option (JsString × Bytes)
  | [] => none
  | a :: rest =>
      if begun a rest then none else some (units (next a rest).1, rest.drop ((next a rest).2 - 1))

/-- Characters as records. -/
def characters : Splitter (Fin 256) JsString where
  next := nextCharacter
  shorter := by
    intro buffer record rest h
    cases buffer with
    | nil => cases h
    | cons a bytes =>
        simp only [nextCharacter] at h
        split at h
        · cases h
        · cases h
          rw [List.length_drop, List.length_cons]
          omega
  stable := by
    intro buffer record rest more h
    cases buffer with
    | nil => cases h
    | cons a bytes =>
        simp only [nextCharacter] at h
        split at h
        · cases h
        next hbegun =>
          cases h
          obtain ⟨hnext, hbegun'⟩ := next_append more (Bool.eq_false_iff.2 hbegun)
          rw [List.cons_append, nextCharacter, hbegun', if_neg Bool.false_ne_true, hnext,
            List.drop_append_of_le_length (next_le a bytes)]

/-- U+FFFD for a character that is not completed. -/
def incomplete (bytes : Bytes) : JsString := if bytes = [] then [] else [0xFFFD]

/-- `new TextDecoder()`, which leaves out a byte order mark. -/
def textDecoder : StreamDecoder (Fin 256) ℕ :=
  (characters.decoder rfl incomplete).withoutMark 0xFEFF

/-! ### Round trip -/

/-- How many bytes follow a first byte. -/
def tails (a : Fin 256) : ℕ :=
  if 0xC2 ≤ a.val ∧ a.val ≤ 0xDF then 1
  else if 0xE0 ≤ a.val ∧ a.val ≤ 0xEF then 2
  else if 0xF0 ≤ a.val ∧ a.val ≤ 0xF4 then 3
  else 0

theorem lt_tails {a : Fin 256} {rest : Bytes} (h : begun a rest = true) : rest.length < tails a := by
  unfold begun at h
  unfold tails
  split_ifs at h ⊢
  · rw [List.isEmpty_iff.1 h]
    exact Nat.one_pos
  · rcases rest with _ | ⟨b, _ | ⟨c, rest⟩⟩
    · exact Nat.two_pos
    · exact Nat.one_lt_two
    · cases h
  · rcases rest with _ | ⟨b, _ | ⟨c, _ | ⟨d, rest⟩⟩⟩
    · exact Nat.succ_pos 2
    · exact Nat.one_lt_succ_succ 1
    · exact Nat.lt_succ_self 2
    · cases h

theorem tails_bytes {n : ℕ} (hn : Scalar n) {a : Fin 256} {t : Bytes} (h : bytes n = a :: t) :
    t.length = tails a := by
  have hmax : n < 0x110000 := by
    rcases hn with hn | hn <;> omega
  unfold bytes at h
  unfold tails
  split_ifs at h with h₁ h₂ h₃ <;> cases h
  · have ha : (Base64.byte n).val = n := val_byte (by omega)
    rw [ha, if_neg (by omega), if_neg (by omega), if_neg (by omega)]
    rfl
  · have ha : (Base64.byte (0xC0 + n / 0x40)).val = 0xC0 + n / 0x40 := val_byte (by omega)
    rw [ha, if_pos (by omega)]
    rfl
  · have ha : (Base64.byte (0xE0 + n / 0x1000)).val = 0xE0 + n / 0x1000 := val_byte (by omega)
    rw [ha, if_neg (by omega), if_pos (by omega)]
    rfl
  · have ha : (Base64.byte (0xF0 + n / 0x40000)).val = 0xF0 + n / 0x40000 := val_byte (by omega)
    rw [ha, if_neg (by omega), if_neg (by omega), if_pos (by omega)]
    rfl

theorem nextCharacter_bytes {n : ℕ} (hn : Scalar n) (rest : Bytes) :
    characters.next (bytes n ++ rest) = some (units n, rest) := by
  obtain ⟨a, t, hbytes, hnext⟩ := next_bytes hn rest
  have hbegun : begun a (t ++ rest) = false := by
    rw [Bool.eq_false_iff]
    intro hbegun
    have hlength := lt_tails hbegun
    rw [List.length_append, tails_bytes hn hbytes] at hlength
    omega
  show nextCharacter (bytes n ++ rest) = some (units n, rest)
  rw [hbytes, List.cons_append, nextCharacter, hbegun, if_neg Bool.false_ne_true, hnext,
    Nat.add_sub_cancel, List.drop_left]

theorem drain_flatMap {ns : List ℕ} (h : ∀ n ∈ ns, Scalar n) :
    characters.drain (ns.flatMap bytes) = (ns.map units, []) := by
  induction ns with
  | nil => rfl
  | cons n ns ih =>
      obtain ⟨hn, hns⟩ := List.forall_mem_cons.1 h
      rw [List.flatMap_cons, characters.drain_of_some (nextCharacter_bytes hn _), ih hns, List.map_cons]

/-- **The bytes of a well-formed string are decoded to that string**, unless it starts with a byte order
mark. -/
theorem textDecoder_encode {s : JsString} (h : WellFormed s) (hmark : s.head? ≠ some 0xFEFF) :
    (textDecoder.decode textDecoder.start (encode s)).1 = s ∧
      textDecoder.flush (textDecoder.decode textDecoder.start (encode s)).2 = [] := by
  obtain ⟨hscalar, hunits⟩ := points_wellFormed h
  have hdrain := drain_flatMap hscalar
  have htext : ((characters.drain ([] ++ encode s)).1).flatten = s := by
    unfold encode
    rw [List.nil_append, hdrain, ← List.flatMap_def, hunits]
  constructor
  · show StreamDecoder.unmark 0xFEFF false ((characters.drain ([] ++ encode s)).1).flatten = s
    rw [htext]
    unfold StreamDecoder.unmark
    rw [if_neg fun hboth => hmark hboth.2]
  · show incomplete (characters.drain ([] ++ encode s)).2 = []
    unfold encode
    rw [List.nil_append, hdrain]
    rfl

end Utf8
