import Mathlib.Data.List.Basic

/-! # Cutting a stream into records

A splitter takes the first record from the front of a buffer, if there is one.  What it takes must
not depend on what follows.  A reader that decodes each chunk and then cuts all records from its
buffer gets the same records, and keeps the same rest, however the stream is cut into chunks
(`StreamDecoder.consume_eq`). -/

/-- Takes the first record of a buffer. -/
structure Splitter (α β : Type) where
  next : List α → Option (β × List α)
  shorter : ∀ {buffer record rest}, next buffer = some (record, rest) →
    rest.length < buffer.length
  stable : ∀ {buffer record rest} (more : List α), next buffer = some (record, rest) →
    next (buffer ++ more) = some (record, rest ++ more)

namespace Splitter

variable {α β : Type} (p : Splitter α β)

/-- At most `fuel` records from the front of a buffer, and what is left. -/
def take : ℕ → List α → List β × List α
  | 0, buffer => ([], buffer)
  | fuel + 1, buffer => match p.next buffer with
    | none => ([], buffer)
    | some (record, rest) =>
        let (records, last) := take fuel rest
        (record :: records, last)

/-- All records of a buffer, and what is left. -/
def drain (buffer : List α) : List β × List α := p.take buffer.length buffer

theorem take_of_none {buffer : List α} (h : p.next buffer = none) (fuel : ℕ) :
    p.take fuel buffer = ([], buffer) := by
  cases fuel with
  | zero => rfl
  | succ fuel =>
      unfold take
      rw [h]

theorem take_of_some {buffer rest : List α} {record : β} (h : p.next buffer = some (record, rest))
    (fuel : ℕ) :
    p.take (fuel + 1) buffer = (record :: (p.take fuel rest).1, (p.take fuel rest).2) := by
  simp only [take, h]

/-- Fuel beyond the length of the buffer changes nothing. -/
theorem take_fuel {m n : ℕ} {buffer : List α} (hm : buffer.length ≤ m) (hn : buffer.length ≤ n) :
    p.take m buffer = p.take n buffer := by
  induction m generalizing n buffer with
  | zero =>
      cases hnext : p.next buffer with
      | none => rw [take_of_none p hnext, take_of_none p hnext]
      | some found => exact absurd (p.shorter hnext) (by omega)
  | succ m ih =>
      cases hnext : p.next buffer with
      | none => rw [take_of_none p hnext, take_of_none p hnext]
      | some found =>
          have hshort := p.shorter hnext
          obtain ⟨k, rfl⟩ : ∃ k, n = k + 1 := ⟨n - 1, by omega⟩
          rw [take_of_some p hnext, take_of_some p hnext, ih (n := k) (by omega) (by omega)]

theorem drain_of_none {buffer : List α} (h : p.next buffer = none) :
    p.drain buffer = ([], buffer) :=
  take_of_none p h _

theorem drain_of_some {buffer rest : List α} {record : β}
    (h : p.next buffer = some (record, rest)) :
    p.drain buffer = (record :: (p.drain rest).1, (p.drain rest).2) := by
  have hshort := p.shorter h
  obtain ⟨k, hk⟩ : ∃ k, buffer.length = k + 1 := ⟨buffer.length - 1, by omega⟩
  unfold drain
  rw [hk, take_of_some p h, p.take_fuel (n := rest.length) (by omega) (Nat.le_refl _)]

/-- No record is left in a drained buffer. -/
theorem next_drain (buffer : List α) : p.next (p.drain buffer).2 = none := by
  induction hlen : buffer.length using Nat.strongRecOn generalizing buffer with
  | ind n ih =>
      cases hnext : p.next buffer with
      | none =>
          rw [p.drain_of_none hnext]
          exact hnext
      | some found =>
          rw [p.drain_of_some hnext]
          exact ih found.2.length (hlen ▸ p.shorter hnext) found.2 rfl

/-- **What has been cut off stays cut off when more comes.** -/
theorem drain_append (buffer more : List α) :
    p.drain (buffer ++ more) =
      ((p.drain buffer).1 ++ (p.drain ((p.drain buffer).2 ++ more)).1,
        (p.drain ((p.drain buffer).2 ++ more)).2) := by
  induction hlen : buffer.length using Nat.strongRecOn generalizing buffer with
  | ind n ih =>
      cases hnext : p.next buffer with
      | none => rw [p.drain_of_none hnext, List.nil_append]
      | some found =>
          obtain ⟨record, rest⟩ := found
          rw [p.drain_of_some hnext, p.drain_of_some (p.stable more hnext),
            ih rest.length (hlen ▸ p.shorter hnext) rest rfl]
          rfl

end Splitter

/-! ### Decoding as it comes -/

/-- Turns a stream into another one: what it has answered to some input, and its state then, do not
depend on how the input was cut. -/
structure StreamDecoder (α β : Type) where
  State : Type
  start : State
  decode : State → List α → List β × State
  /-- What is still to come at the end of the input. -/
  flush : State → List β
  decode_nil : ∀ s, decode s [] = ([], s)
  decode_append : ∀ s xs ys, decode s (xs ++ ys) =
    ((decode s xs).1 ++ (decode (decode s xs).2 ys).1, (decode (decode s xs).2 ys).2)

namespace StreamDecoder

variable {α β γ δ : Type} (d : StreamDecoder α β) (p : Splitter β γ)

/-- Decode each chunk, cut all records from what has been decoded, and treat them one by one; treat
what is left when the chunks are used up. -/
def consume (record : γ → δ → δ) (last : d.State → List β → δ) :
    d.State → List β → List (List α) → δ
  | s, buffer, [] => last s buffer
  | s, buffer, chunk :: chunks =>
      let (text, s) := d.decode s chunk
      let (found, buffer) := p.drain (buffer ++ text)
      found.foldr record (consume record last s buffer chunks)

/-- **The chunks do not matter**, only the stream they make up. -/
theorem consume_eq (record : γ → δ → δ) (last : d.State → List β → δ) {s : d.State}
    {buffer : List β} (h : p.next buffer = none) (chunks : List (List α)) :
    d.consume p record last s buffer chunks =
      (p.drain (buffer ++ (d.decode s chunks.flatten).1)).1.foldr record
        (last (d.decode s chunks.flatten).2
          (p.drain (buffer ++ (d.decode s chunks.flatten).1)).2) := by
  induction chunks generalizing s buffer with
  | nil =>
      rw [List.flatten_nil, d.decode_nil, List.append_nil, p.drain_of_none h]
      rfl
  | cons chunk chunks ih =>
      rw [List.flatten_cons, d.decode_append, ← List.append_assoc, p.drain_append]
      rw [List.foldr_append, ← ih (p.next_drain (buffer ++ (d.decode s chunk).1))]
      rfl

end StreamDecoder
