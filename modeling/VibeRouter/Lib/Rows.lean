import Mathlib.Data.List.Nodup

/-! # Rows with a key

Lists of rows that are found, updated and added by a key, as the rows of a table are. -/

namespace Rows

variable {ρ κ ι : Type} [DecidableEq κ] [DecidableEq ι]

/-- The first row with the key `k`. -/
def find (key : ρ → κ) (k : κ) (rows : List ρ) : Option ρ := rows.find? fun row => key row = k

/-- Apply `f` to the rows with the key `k`. -/
def update (key : ρ → κ) (k : κ) (f : ρ → ρ) (rows : List ρ) : List ρ :=
  rows.map fun row => if key row = k then f row else row

section
variable {key : ρ → κ} {rows : List ρ} {k : κ} {a b : ρ}

theorem mem_of_find (h : find key k rows = some a) : a ∈ rows ∧ key a = k :=
  ⟨List.mem_of_find?_eq_some h, by simpa using List.find?_some h⟩

theorem find_eq_none_iff : find key k rows = none ↔ ∀ row ∈ rows, key row ≠ k := by
  simp [find]

omit [DecidableEq κ] in
/-- Two rows of one key are one. -/
theorem eq_of_key (h : (rows.map key).Nodup) (ha : a ∈ rows) (hb : b ∈ rows) (hkey : key a = key b) :
    a = b := List.inj_on_of_nodup_map h ha hb hkey

theorem find_of_mem (h : (rows.map key).Nodup) (ha : a ∈ rows) : find key (key a) rows = some a := by
  cases hfind : find key (key a) rows with
  | none => exact absurd rfl (find_eq_none_iff.1 hfind a ha)
  | some b =>
      obtain ⟨hb, hkey⟩ := mem_of_find hfind
      rw [eq_of_key h hb ha hkey]

/-! ### Adding a row -/

theorem find_append (rows : List ρ) (a : ρ) :
    find key k (rows ++ [a]) = (find key k rows).or (if key a = k then some a else none) := by
  simp only [find, List.find?_append, List.find?_singleton, decide_eq_true_eq]

omit [DecidableEq κ] in
theorem nodup_append (h : (rows.map key).Nodup) (hnone : ∀ row ∈ rows, key row ≠ key a) :
    ((rows ++ [a]).map key).Nodup := by
  rw [List.map_append, List.nodup_append]
  refine ⟨h, List.nodup_singleton _, ?_⟩
  intro x hx y hy
  obtain ⟨row, hrow, rfl⟩ := List.mem_map.1 hx
  rw [List.map_singleton, List.mem_singleton] at hy
  rw [hy]
  exact hnone row hrow

/-! ### Updating the rows of a key -/

variable {f : ρ → ρ}

theorem map_update {β : Type} (g : ρ → β) (hg : ∀ row, g (f row) = g row) (rows : List ρ) :
    (update key k f rows).map g = rows.map g := by
  rw [update, List.map_map]
  refine List.map_congr_left fun row _ => ?_
  show g (if key row = k then f row else row) = g row
  split
  · exact hg row
  · rfl

/-- Only the row found can be changed by an update. -/
theorem update_eq_self_iff (h : (rows.map key).Nodup) (ha : a ∈ rows) :
    update key (key a) f rows = rows ↔ f a = a := by
  constructor
  · intro hsame
    have hmap : rows.map (fun row => if key row = key a then f row else row) = rows.map id := by
      rw [List.map_id]
      exact hsame
    have hrow := List.map_inj_left.1 hmap a ha
    rwa [if_pos rfl] at hrow
  · intro hfix
    have hmap : rows.map (fun row => if key row = key a then f row else row) = rows.map id := by
      refine List.map_congr_left fun row hrow => ?_
      split
      · next hkey =>
          rw [eq_of_key h hrow ha hkey]
          exact hfix
      · rfl
    rw [update, hmap, List.map_id]

/-- Finding by one key after an update by another, which changes neither. -/
theorem find_update {key' : ρ → ι} {k' : ι} (hf : ∀ row, key' (f row) = key' row) (rows : List ρ) :
    find key' k' (update key k f rows) =
      (find key' k' rows).map fun row => if key row = k then f row else row := by
  have hkey : ∀ row, key' (if key row = k then f row else row) = key' row := by
    intro row
    split
    · exact hf row
    · rfl
  rw [find, update, List.find?_map]
  congr 1
  exact congrArg (List.find? · rows) (funext fun row => by simp only [Function.comp, hkey])

end

end Rows
