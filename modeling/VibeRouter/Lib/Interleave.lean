import Mathlib.Data.List.Basic

/-! # Interleavings of lists

`Interleaves ls out` says that `out` takes the elements of the lists `ls` one at a time, each list
in its own order.  What a predicate selects from an interleaving interleaves what it selects from
the lists, and an interleaving of one list with empty ones is that list. -/

namespace List

variable {α : Type} {ls : List (List α)} {out : List α}

/-- `out` merges the lists `ls`, in any order that keeps each of them. -/
inductive Interleaves : List (List α) → List α → Prop
  | nil {ls : List (List α)} (h : ∀ l ∈ ls, l = []) : Interleaves ls []
  | cons {before after : List (List α)} {l out : List α} {x : α}
      (h : Interleaves (before ++ l :: after) out) :
      Interleaves (before ++ (x :: l) :: after) (x :: out)

theorem flatten_of_forall_nil (h : ∀ l ∈ ls, l = []) : ls.flatten = [] := by
  rw [List.flatten_eq_nil_iff]
  exact h

/-- One list comes out as it is when the others are empty. -/
theorem Interleaves.eq_flatten (h : Interleaves ls out)
    (hone : ls.Pairwise fun a b => a = [] ∨ b = []) : out = ls.flatten := by
  induction h with
  | nil hnil => exact (flatten_of_forall_nil hnil).symm
  | @cons before after l out x h ih =>
      rw [List.pairwise_append, List.pairwise_cons] at hone
      obtain ⟨hbefore, ⟨hafter, hrest⟩, hcross⟩ := hone
      have hempty : ∀ b ∈ before, b = [] := by
        intro b hb
        rcases hcross b hb _ (List.mem_cons_self ..) with h | h
        · exact h
        · cases h
      have hempty' : ∀ a ∈ after, a = [] := by
        intro a ha
        rcases hafter a ha with h | h
        · cases h
        · exact h
      have hpairs : (before ++ l :: after).Pairwise fun a b => a = [] ∨ b = [] := by
        rw [List.pairwise_append, List.pairwise_cons]
        exact ⟨hbefore, ⟨fun a ha => Or.inr (hempty' a ha), hrest⟩,
          fun b hb _ _ => Or.inl (hempty b hb)⟩
      rw [ih hpairs, List.flatten_append, List.flatten_append, flatten_of_forall_nil hempty]
      rfl

theorem Interleaves.mem (h : Interleaves ls out) {x : α} (hx : x ∈ out) : ∃ l ∈ ls, x ∈ l := by
  induction h with
  | nil hnil => cases hx
  | @cons before after l out y h ih =>
      rcases List.mem_cons.1 hx with rfl | hx
      · exact ⟨x :: l, List.mem_append_right _ (List.mem_cons_self ..), List.mem_cons_self ..⟩
      · obtain ⟨l', hl', hmem⟩ := ih hx
        rcases List.mem_append.1 hl' with hl' | hl'
        · exact ⟨l', List.mem_append_left _ hl', hmem⟩
        · rcases List.mem_cons.1 hl' with rfl | hl'
          · exact ⟨y :: l', List.mem_append_right _ (List.mem_cons_self ..),
              List.mem_cons_of_mem _ hmem⟩
          · exact ⟨l', List.mem_append_right _ (List.mem_cons_of_mem _ hl'), hmem⟩

theorem Interleaves.filter (p : α → Bool) (h : Interleaves ls out) :
    Interleaves (ls.map (List.filter p)) (out.filter p) := by
  induction h with
  | nil hnil =>
      apply Interleaves.nil
      intro l hl
      obtain ⟨l', hl', rfl⟩ := List.mem_map.1 hl
      rw [hnil l' hl']
      rfl
  | @cons before after l out x h ih =>
      rw [List.map_append, List.map_cons] at ih ⊢
      cases hx : p x with
      | true =>
          rw [List.filter_cons_of_pos hx, List.filter_cons_of_pos hx]
          exact Interleaves.cons ih
      | false =>
          rw [List.filter_cons_of_neg (by rw [hx]; exact Bool.false_ne_true),
            List.filter_cons_of_neg (by rw [hx]; exact Bool.false_ne_true)]
          exact ih

end List
