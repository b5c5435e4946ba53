import Mathlib.Algebra.BigOperators.Group.Finset.Piecewise
import Mathlib.Algebra.BigOperators.Group.List.Lemmas
import Mathlib.Data.List.Dedup
import VibeRouter.Lib.JsMap

/-! # Rows in groups

`groups` is `GROUP BY`: the rows of each key that occurs.  Whatever is added up over the groups is what
it is over the rows (`sum_groups`), also over those groups only whose keys satisfy a condition
(`sum_groups_where`): grouping the groups again by a part of their keys is grouping the rows by that
part.  `collect` groups with a map, row by row, and comes to the same.  `select`
computes a row of each group, and `leftJoin` joins rows to a table with a primary key. -/

namespace Grouping

variable {ρ κ γ α M ε : Type}

section
variable [DecidableEq κ]

/-- The rows of each key. -/
def groups (key : ρ → κ) (rows : List ρ) : List (κ × List ρ) :=
  (rows.map key).dedup.map fun k => (k, rows.filter fun r => key r = k)

variable {key : ρ → κ} {rows : List ρ}

theorem mem_groups {g : κ × List ρ} :
    g ∈ groups key rows ↔ (∃ r ∈ rows, key r = g.1) ∧ g.2 = rows.filter fun r => key r = g.1 := by
  obtain ⟨k, rs⟩ := g
  simp only [groups, List.mem_map, List.mem_dedup, Prod.mk.injEq]
  constructor
  · rintro ⟨k', ⟨r, hr, hkey⟩, rfl, rfl⟩
    exact ⟨⟨r, hr, hkey⟩, rfl⟩
  · rintro ⟨⟨r, hr, hkey⟩, hrs⟩
    exact ⟨k, ⟨r, hr, hkey⟩, rfl, hrs.symm⟩

theorem group_of_mem {r : ρ} {k : κ} (hr : r ∈ rows) (hkey : key r = k) :
    (k, rows.filter fun r => key r = k) ∈ groups key rows :=
  mem_groups.2 ⟨⟨r, hr, hkey⟩, rfl⟩

/-! ### Sums -/

variable [AddCommMonoid M]

theorem sum_map_filter (p : ρ → Prop) [DecidablePred p] (m : ρ → M) (rows : List ρ) :
    ((rows.filter fun r => p r).map m).sum = (rows.map fun r => if p r then m r else 0).sum := by
  induction rows with
  | nil => rfl
  | cons r rows ih =>
      by_cases h : p r
      · simp [h, ih]
      · simp [h, ih]

/-- Adding up over the keys in a set that has the keys of all rows. -/
theorem sum_fibers (key : ρ → κ) (m : ρ → M) (K : Finset κ) (rows : List ρ)
    (hK : ∀ r ∈ rows, key r ∈ K) :
    (∑ k ∈ K, ((rows.filter fun r => key r = k).map m).sum) = (rows.map m).sum := by
  induction rows with
  | nil => simp
  | cons r rows ih =>
      have hhead : key r ∈ K := hK r (List.mem_cons_self ..)
      have hrest := ih fun r' hr' => hK r' (List.mem_cons_of_mem _ hr')
      have hsplit : ∀ k, (((r :: rows).filter fun r => key r = k).map m).sum =
          (if key r = k then m r else 0) + ((rows.filter fun r => key r = k).map m).sum := by
        intro k
        by_cases h : key r = k
        · simp [h]
        · simp [h]
      simp only [hsplit]
      rw [Finset.sum_add_distrib, Finset.sum_ite_eq, if_pos hhead, hrest, List.map_cons,
        List.sum_cons]

/-- The groups add up to the rows. -/
theorem sum_groups (key : ρ → κ) (m : ρ → M) (rows : List ρ) :
    ((groups key rows).map fun g => (g.2.map m).sum).sum = (rows.map m).sum := by
  have hkeys : ∀ r ∈ rows, key r ∈ (rows.map key).dedup.toFinset := by
    intro r hr
    simp only [List.mem_toFinset, List.mem_dedup]
    exact List.mem_map_of_mem hr
  rw [← sum_fibers key m _ rows hkeys, List.sum_toFinset _ (List.nodup_dedup _), groups,
    List.map_map]
  rfl

/-- The groups of some keys add up to the rows of these keys. -/
theorem sum_groups_where (p : κ → Prop) [DecidablePred p] (m : ρ → M) (rows : List ρ) :
    (((groups key rows).filter fun g => p g.1).map fun g => (g.2.map m).sum).sum =
      ((rows.filter fun r => p (key r)).map m).sum := by
  have hinner : ∀ g ∈ groups key rows, (if p g.1 then (g.2.map m).sum else 0) =
      (g.2.map fun r => if p (key r) then m r else 0).sum := by
    intro g hg
    obtain ⟨-, hrows⟩ := mem_groups.1 hg
    have hkey : ∀ r ∈ g.2, key r = g.1 := by
      intro r hr
      rw [hrows] at hr
      simpa using (List.mem_filter.1 hr).2
    have hmap : (g.2.map fun r => if p (key r) then m r else 0) =
        g.2.map fun r => if p g.1 then m r else 0 :=
      List.map_congr_left fun r hr => by rw [hkey r hr]
    rw [hmap]
    split
    · rfl
    · simp
  rw [sum_map_filter (fun g : κ × List ρ => p g.1), List.map_congr_left hinner, sum_groups,
    sum_map_filter (fun r => p (key r))]

end

/-! ### Grouping with a map -/

section
variable [DecidableEq κ]

/-- Add every row to what the map has under its key. -/
def collect (key : ρ → κ) (add : α → ρ → α) (zero : α) (rows : List ρ) : JsMap κ α :=
  rows.foldl (fun m r => m.set (key r) (add ((m.get (key r)).getD zero) r)) .empty

theorem get_collect (key : ρ → κ) (add : α → ρ → α) (zero : α) (rows : List ρ) (k : κ) :
    (collect key add zero rows).get k =
      if ∃ r ∈ rows, key r = k then some ((rows.filter fun r => key r = k).foldl add zero)
      else none := by
  have hstart : ∀ m : JsMap κ α, (rows.foldl
      (fun m r => m.set (key r) (add ((m.get (key r)).getD zero) r)) m).get k =
      if ∃ r ∈ rows, key r = k then
        some ((rows.filter fun r => key r = k).foldl add ((m.get k).getD zero))
      else m.get k := by
    induction rows with
    | nil => simp
    | cons r rows ih =>
        intro m
        rw [List.foldl_cons, ih]
        by_cases hk : key r = k
        · by_cases hmore : ∃ r ∈ rows, key r = k
          · simp [hk, hmore]
          · have hnone : rows.filter (fun r => key r = k) = [] := by
              rw [List.filter_eq_nil_iff]
              intro r' hr' hkey
              exact hmore ⟨r', hr', by simpa using hkey⟩
            simp [hk, hmore, hnone]
        · have hget : (m.set (key r) (add ((m.get (key r)).getD zero) r)).get k = m.get k :=
            JsMap.get_set_of_ne _ _ (Ne.symm hk)
          simp [hk, hget]
  rw [collect, hstart]
  simp

/-- The keys of the map are those of the rows. -/
theorem mem_collect (key : ρ → κ) (add : α → ρ → α) (zero : α) (rows : List ρ) {e : κ × α} :
    e ∈ (collect key add zero rows).entries ↔ (∃ r ∈ rows, key r = e.1) ∧
      e.2 = (rows.filter fun r => key r = e.1).foldl add zero := by
  obtain ⟨k, a⟩ := e
  rw [← JsMap.get_eq_some_iff, get_collect]
  split
  · next h =>
      rw [Option.some.injEq]
      exact ⟨fun heq => ⟨h, heq.symm⟩, fun heq => heq.2.symm⟩
  · next h => exact ⟨nofun, fun heq => absurd heq.1 h⟩

/-- What the map has adds up to the rows. -/
theorem sum_collect [AddCommMonoid α] {key : ρ → κ} {add : α → ρ → α} {zero : α} {m : ρ → α}
    (hadd : ∀ rs : List ρ, rs.foldl add zero = (rs.map m).sum) (rows : List ρ) :
    ((collect key add zero rows).entries.map Prod.snd).sum = (rows.map m).sum := by
  have hmap : (collect key add zero rows).entries.map Prod.snd =
      ((collect key add zero rows).entries.map Prod.fst).map fun k =>
        ((rows.filter fun r => key r = k).map m).sum := by
    rw [List.map_map]
    refine List.map_congr_left fun e he => ?_
    rw [((mem_collect key add zero rows).1 he).2, hadd]
    rfl
  rw [hmap, ← List.sum_toFinset _ (collect key add zero rows).nodup]
  refine sum_fibers key m _ rows fun r hr => ?_
  rw [List.mem_toFinset]
  exact List.mem_map.2 ⟨(key r, (rows.filter fun r' => key r' = key r).foldl add zero),
    (mem_collect key add zero rows).2 ⟨⟨r, hr, rfl⟩, rfl⟩, rfl⟩

end

/-! ### Selecting from groups -/

/-- A row of each group; one that cannot be computed fails the query. -/
def select (f : κ × List ρ → Except ε γ) (gs : List (κ × List ρ)) : Except ε (List γ) := gs.mapM f

theorem forall₂_of_mapM {f : α → Except ε γ} {xs : List α} {ys : List γ}
    (h : xs.mapM f = .ok ys) : List.Forall₂ (fun x y => f x = .ok y) xs ys := by
  induction xs generalizing ys with
  | nil =>
      cases h
      exact .nil
  | cons x xs ih =>
      rw [List.mapM_cons] at h
      cases hx : f x with
      | error err =>
          rw [hx] at h
          cases h
      | ok y =>
          cases hxs : xs.mapM f with
          | error err =>
              rw [hx, hxs] at h
              cases h
          | ok ys' =>
              rw [hx, hxs] at h
              cases h
              exact .cons hx (ih hxs)

/-- What is selected, seen through `φ`, is the groups, seen through `ψ`. -/
theorem map_select {f : κ × List ρ → Except ε γ} {gs : List (κ × List ρ)} {ys : List γ}
    {φ : γ → α} {ψ : κ × List ρ → α} (h : select f gs = .ok ys)
    (hf : ∀ g y, f g = .ok y → φ y = ψ g) : ys.map φ = gs.map ψ := by
  have hall := forall₂_of_mapM h
  clear h
  induction hall with
  | nil => rfl
  | cons hhead _ ih => rw [List.map_cons, List.map_cons, ih, hf _ _ hhead]

/-! ### Joining a table with a primary key -/

section
variable [DecidableEq κ] {id : γ → κ} {ref : ρ → Option κ}

/-- `LEFT JOIN`: a row for each match, or one with nothing. -/
def leftJoin (ref : ρ → Option κ) (id : γ → κ) (rows : List ρ) (table : List γ) :
    List (ρ × Option γ) :=
  rows.flatMap fun r => match table.filter fun c => ref r = some (id c) with
    | [] => [(r, none)]
    | cs => cs.map fun c => (r, some c)

/-- The row of the table that a row refers to. -/
def referred (ref : ρ → Option κ) (id : γ → κ) (table : List γ) (r : ρ) : Option γ :=
  table.find? fun c => ref r = some (id c)

/-- A join with a primary key neither drops nor repeats a row. -/
theorem leftJoin_eq (rows : List ρ) {table : List γ} (hkey : (table.map id).Nodup) :
    leftJoin ref id rows table = rows.map fun r => (r, referred ref id table r) := by
  have hone : ∀ r, (match table.filter fun c => ref r = some (id c) with
      | [] => [(r, none)]
      | cs => cs.map fun c => (r, some c)) = [(r, referred ref id table r)] := by
    intro r
    unfold referred
    induction table with
    | nil => rfl
    | cons c table ih =>
        obtain ⟨hhead, htail⟩ := List.nodup_cons.1 hkey
        by_cases h : ref r = some (id c)
        · have hnone : table.filter (fun c => ref r = some (id c)) = [] := by
            rw [List.filter_eq_nil_iff]
            intro c' hc' heq
            rw [h] at heq
            have hid : id c = id c' := by simpa using heq
            exact hhead (hid ▸ List.mem_map_of_mem hc')
          rw [List.filter_cons_of_pos (by simpa using h), List.find?_cons_of_pos (by simpa using h),
            hnone]
          rfl
        · simp only [List.filter_cons, List.find?_cons, h, decide_false]
          exact ih htail
  unfold leftJoin
  simp only [hone]
  induction rows with
  | nil => rfl
  | cons r rows ih => simp [ih]

end

end Grouping
