import Mathlib.Data.List.Basic

/-! # Cells that are read and written back

An author reads a cell, changes what it has read and writes the result back; in between others may
write.  A `History` is what such authors can do to one cell.

If every write leaves what its change makes of the value it finds, the cell holds what the changes
make of its first value one after the other (`History.cell_eq_atomic`).  Of two writes this is
needed as well (`History.two_iff`), so where the value is a record and the two set different keys
of it, no change is lost exactly when neither write passes over the other (`History.both_iff`). -/

namespace ReadWrite

variable {σ : Type}

/-- A write: what its author had read, what the cell held, and the author's change of a value. -/
structure Write (σ : Type) where
  read : σ
  found : σ
  change : σ → σ

/-- What a write leaves in the cell. -/
def Write.left (w : Write σ) : σ := w.change w.read

/-- The write leaves what its change makes of the value it finds. -/
def Write.Fresh (w : Write σ) : Prop := w.left = w.change w.found

/-- What the cell holds after the writes, the newest of them first. -/
def cell (s : σ) : List (Write σ) → σ
  | [] => s
  | w :: _ => w.left

/-- What the cell would hold if nothing came between reading and writing. -/
def atomic (s : σ) : List (Write σ) → σ
  | [] => s
  | w :: ws => w.change (atomic s ws)

/-- The values the cell had up to the newest of the writes. -/
def Had (s : σ) (ws : List (Write σ)) (value : σ) : Prop := value = s ∨ ∃ w ∈ ws, value = w.left

/-- The writes of a cell: each finds what the one before it has left, and its author had read a
value the cell had. -/
inductive History (s : σ) : List (Write σ) → Prop
  | nil : History s []
  | cons {w : Write σ} {ws : List (Write σ)} (h : History s ws) (hfound : w.found = cell s ws)
      (hread : Had s ws w.read) : History s (w :: ws)

variable {s value : σ} {w w₁ w₂ : Write σ} {ws : List (Write σ)}

theorem had_cell (s : σ) (ws : List (Write σ)) : Had s ws (cell s ws) := by
  cases ws with
  | nil => exact Or.inl rfl
  | cons w ws => exact Or.inr ⟨w, List.mem_cons_self .., rfl⟩

theorem Had.cons (h : Had s ws value) : Had s (w :: ws) value := by
  obtain h | ⟨w', hw', h⟩ := h
  · exact Or.inl h
  · exact Or.inr ⟨w', List.mem_cons_of_mem _ hw', h⟩

/-- Where no write passes over another, the changes happen one after the other. -/
theorem History.cell_eq_atomic (h : History s ws) (hfresh : ∀ w ∈ ws, w.Fresh) :
    cell s ws = atomic s ws := by
  induction h with
  | nil => rfl
  | @cons w ws h hfound hread ih =>
      have hrest : cell s ws = atomic s ws := ih fun w' hw' => hfresh w' (List.mem_cons_of_mem _ hw')
      have hlast : w.left = w.change w.found := hfresh w (List.mem_cons_self ..)
      calc cell s (w :: ws) = w.change w.found := hlast
        _ = w.change (atomic s ws) := by rw [hfound, hrest]
        _ = atomic s (w :: ws) := rfl

/-- The first write finds what its author had read. -/
theorem History.first_fresh (h : History s [w]) : w.Fresh := by
  cases h with
  | cons h hfound hread =>
      obtain hread | ⟨w', hw', -⟩ := hread
      · unfold Write.Fresh Write.left
        rw [hread, hfound]
        rfl
      · cases hw'

/-- Two changes happen one after the other exactly when neither write passes over the other. -/
theorem History.two_iff (h : History s [w₂, w₁]) :
    cell s [w₂, w₁] = atomic s [w₂, w₁] ↔ ∀ w ∈ [w₂, w₁], w.Fresh := by
  constructor
  · intro hatomic
    cases h with
    | cons hfirst hfound hread =>
        have hfresh : w₁.Fresh := hfirst.first_fresh
        have hleft : w₁.left = atomic s [w₁] := hfirst.cell_eq_atomic (by
          intro w hw
          rwa [List.mem_singleton.1 hw])
        intro w hw
        rcases List.mem_cons.1 hw with rfl | hw
        · show w.left = w.change w.found
          rw [hfound]
          exact hatomic.trans (congrArg w.change hleft.symm)
        · rwa [List.mem_singleton.1 hw]
  · exact h.cell_eq_atomic

/-! ### Records -/

section

variable {κ ν : Type} {p : ν → Bool} {c c₁ c₂ r r' after : κ → Option ν}

/-- Set the keys of `c`; a key whose value `p` does not keep is cleared. -/
def patch (p : ν → Bool) (c r : κ → Option ν) : κ → Option ν := fun k => ((c k).or (r k)).filter p

/-- Both changes are there, and every other key is as it was. -/
structure Both (p : ν → Bool) (c₁ c₂ before after : κ → Option ν) : Prop where
  first : ∀ k v, c₁ k = some v → after k = (some v).filter p
  second : ∀ k v, c₂ k = some v → after k = (some v).filter p
  others : ∀ k, c₁ k = none → c₂ k = none → after k = before k

theorem patch_of_some {k : κ} {v : ν} (h : c k = some v) : patch p c r k = (some v).filter p := by
  unfold patch
  rw [h, Option.some_or]

theorem patch_of_none {k : κ} (h : c k = none) : patch p c r k = (r k).filter p := by
  unfold patch
  rw [h, Option.none_or]

/-- A change only looks at the keys that it does not set. -/
theorem patch_eq_iff :
    patch p c r = patch p c r' ↔ ∀ k, c k = none → (r k).filter p = (r' k).filter p := by
  constructor
  · intro h k hk
    rw [← patch_of_none hk, ← patch_of_none hk, h]
  · intro h
    funext k
    cases hk : c k with
    | none => rw [patch_of_none hk, patch_of_none hk, h k hk]
    | some v => rw [patch_of_some hk, patch_of_some hk]

theorem fresh_iff {w : Write (κ → Option ν)} (h : w.change = patch p c) :
    w.Fresh ↔ ∀ k, c k = none → (w.read k).filter p = (w.found k).filter p := by
  unfold Write.Fresh Write.left
  rw [h, patch_eq_iff]

/-- What is kept once is kept again. -/
theorem filter_again (p : ν → Bool) (o : Option ν) : (o.filter p).filter p = o.filter p := by
  rw [Option.filter_filter]
  simp only [Bool.and_self]

/-- Both changes are there when one is made of what the other leaves. -/
theorem both_iff_eq (hdisjoint : ∀ k, c₁ k = none ∨ c₂ k = none)
    (hkept : ∀ k, c₁ k = none → c₂ k = none → (r k).filter p = r k) :
    Both p c₁ c₂ r after ↔ after = patch p c₂ (patch p c₁ r) := by
  have hpatch : Both p c₁ c₂ r (patch p c₂ (patch p c₁ r)) := by
    constructor
    · intro k v h₁
      have h₂ : c₂ k = none := (hdisjoint k).resolve_left (by rw [h₁]; exact Option.some_ne_none v)
      rw [patch_of_none h₂, patch_of_some h₁, filter_again]
    · intro k v h₂
      exact patch_of_some h₂
    · intro k h₁ h₂
      rw [patch_of_none h₂, patch_of_none h₁, filter_again, hkept k h₁ h₂]
  constructor
  · intro h
    funext k
    cases h₁ : c₁ k with
    | some v => rw [h.first k v h₁, hpatch.first k v h₁]
    | none =>
        cases h₂ : c₂ k with
        | some v => rw [h.second k v h₂, hpatch.second k v h₂]
        | none => rw [h.others k h₁ h₂, hpatch.others k h₁ h₂]
  · rintro rfl
    exact hpatch

/-- Of two updates of different keys none is lost exactly when neither write passes over the other,
and the changes clear nothing else. -/
theorem History.both_iff {w₁ w₂ : Write (κ → Option ν)} (h : History r [w₂, w₁])
    (h₁ : w₁.change = patch p c₁) (h₂ : w₂.change = patch p c₂)
    (hdisjoint : ∀ k, c₁ k = none ∨ c₂ k = none) :
    Both p c₁ c₂ r (cell r [w₂, w₁]) ↔
      (∀ k, c₁ k = none → c₂ k = none → (r k).filter p = r k) ∧ ∀ w ∈ [w₂, w₁], w.Fresh := by
  have hatomic : atomic r [w₂, w₁] = patch p c₂ (patch p c₁ r) := by
    show w₂.change (w₁.change r) = _
    rw [h₁, h₂]
  rw [← h.two_iff, hatomic]
  constructor
  · intro hboth
    have hkept : ∀ k, c₁ k = none → c₂ k = none → (r k).filter p = r k := by
      intro k hk₁ hk₂
      have hothers : w₂.left k = r k := hboth.others k hk₁ hk₂
      have hleft : w₂.left k = (w₂.read k).filter p := by
        unfold Write.left
        rw [h₂, patch_of_none hk₂]
      rw [← hothers, hleft, filter_again]
    exact ⟨hkept, (both_iff_eq hdisjoint hkept).1 hboth⟩
  · rintro ⟨hkept, hcell⟩
    exact (both_iff_eq hdisjoint hkept).2 hcell

end

end ReadWrite
