import Mathlib.Data.List.Nodup

/-! # Maps that remember the order of insertion

The `Map` of the language: assigning to a present key keeps its place, a new key goes to the
end, and iteration runs from the oldest key to the newest.  The keys are distinct by
construction. -/

/-- A `Map` from `κ` to `ν`, oldest key first. -/
structure JsMap (κ ν : Type) where
  entries : List (κ × ν)
  nodup : (entries.map Prod.fst).Nodup

namespace JsMap

variable {κ ν : Type}

/-- `new Map()`. -/
def empty : JsMap κ ν := ⟨[], List.nodup_nil⟩

/-- `[...map.keys()]`. -/
def keys (m : JsMap κ ν) : List κ := m.entries.map Prod.fst

/-- `[...map.values()]`. -/
def values (m : JsMap κ ν) : List ν := m.entries.map Prod.snd

/-- `map.size`. -/
def size (m : JsMap κ ν) : ℕ := m.entries.length

/-- Keep the entries whose key satisfies `p`. -/
def filterKeys (m : JsMap κ ν) (p : κ → Bool) : JsMap κ ν where
  entries := m.entries.filter fun e => p e.1
  nodup := m.nodup.sublist (List.filter_sublist.map Prod.fst)

/-- Keep the entries that satisfy `p`. -/
def filter (m : JsMap κ ν) (p : κ × ν → Bool) : JsMap κ ν where
  entries := m.entries.filter p
  nodup := m.nodup.sublist (List.filter_sublist.map Prod.fst)

theorem size_filter_le (m : JsMap κ ν) (p : κ × ν → Bool) : (m.filter p).size ≤ m.size :=
  List.length_filter_le p m.entries

variable [DecidableEq κ]

/-- Assign to `k` in a list of entries. -/
def assign (k : κ) (v : ν) : List (κ × ν) → List (κ × ν)
  | [] => [(k, v)]
  | e :: es => if e.1 = k then (k, v) :: es else e :: assign k v es

theorem map_fst_assign (k : κ) (v : ν) (es : List (κ × ν)) :
    (assign k v es).map Prod.fst =
      if k ∈ es.map Prod.fst then es.map Prod.fst else es.map Prod.fst ++ [k] := by
  induction es with
  | nil => rfl
  | cons e es ih =>
      unfold assign
      by_cases h : e.1 = k
      · simp [h]
      · have hk : k ≠ e.1 := Ne.symm h
        simp only [h, if_false, List.map_cons, ih, List.mem_cons, hk, false_or]
        split <;> rfl

theorem assign_of_notMem {k : κ} {v : ν} {es : List (κ × ν)} (h : k ∉ es.map Prod.fst) :
    assign k v es = es ++ [(k, v)] := by
  induction es with
  | nil => rfl
  | cons e es ih =>
      rw [List.map_cons, List.mem_cons, not_or] at h
      unfold assign
      rw [if_neg (Ne.symm h.1), ih h.2, List.cons_append]

/-- `map.set(k, v)`. -/
def set (m : JsMap κ ν) (k : κ) (v : ν) : JsMap κ ν where
  entries := assign k v m.entries
  nodup := by
    rw [map_fst_assign]
    split
    · exact m.nodup
    · next h => exact List.nodup_append.2 ⟨m.nodup, List.nodup_singleton k, by
        rintro a ha b hb rfl
        exact h (List.mem_singleton.1 hb ▸ ha)⟩

/-- `map.get(k)`. -/
def get (m : JsMap κ ν) (k : κ) : Option ν := (m.entries.find? fun e => e.1 = k).map Prod.snd

/-- `map.delete(k)`. -/
def delete (m : JsMap κ ν) (k : κ) : JsMap κ ν := m.filterKeys fun k' => k' ≠ k

/-- `new Map(pairs)`. -/
def ofList (ps : List (κ × ν)) : JsMap κ ν := ps.foldl (fun m p => m.set p.1 p.2) empty

@[simp] theorem get_empty (k : κ) : (empty : JsMap κ ν).get k = none := rfl

theorem find_assign (k k' : κ) (v : ν) (es : List (κ × ν)) :
    ((assign k v es).find? fun e => e.1 = k').map Prod.snd =
      if k' = k then some v else (es.find? fun e => e.1 = k').map Prod.snd := by
  induction es with
  | nil =>
      by_cases h : k' = k
      · simp [assign, h]
      · simp [assign, h, Ne.symm h]
  | cons e es ih =>
      unfold assign
      by_cases h : e.1 = k
      · by_cases hk : k' = k
        · simp [h, hk]
        · simp [h, hk, Ne.symm hk]
      · by_cases hk : e.1 = k'
        · have : k' ≠ k := fun h' => h (hk.trans h')
          simp [hk, this]
        · simp only [h, if_false, List.find?_cons, hk, decide_false]
          exact ih

theorem get_set (m : JsMap κ ν) (k k' : κ) (v : ν) :
    (m.set k v).get k' = if k' = k then some v else m.get k' :=
  find_assign k k' v m.entries

@[simp] theorem get_set_self (m : JsMap κ ν) (k : κ) (v : ν) : (m.set k v).get k = some v := by
  rw [get_set, if_pos rfl]

theorem get_set_of_ne (m : JsMap κ ν) {k k' : κ} (v : ν) (h : k' ≠ k) :
    (m.set k v).get k' = m.get k' := by
  rw [get_set, if_neg h]

theorem get_filterKeys (m : JsMap κ ν) (p : κ → Bool) (k : κ) :
    (m.filterKeys p).get k = if p k then m.get k else none := by
  unfold get filterKeys
  rw [List.find?_filter]
  by_cases h : p k
  · have : (fun e : κ × ν => p e.1 && decide (e.1 = k)) = fun e => decide (e.1 = k) := by
      funext e
      by_cases he : e.1 = k <;> simp [he, h]
    simp [this, h]
  · have : (fun e : κ × ν => p e.1 && decide (e.1 = k)) = fun _ => false := by
      funext e
      by_cases he : e.1 = k <;> simp [he, h]
    simp [this, h]

theorem get_delete (m : JsMap κ ν) (k k' : κ) :
    (m.delete k).get k' = if k' = k then none else m.get k' := by
  unfold delete
  rw [get_filterKeys]
  by_cases h : k' = k <;> simp [h]

theorem mem_entries_of_get {m : JsMap κ ν} {k : κ} {v : ν} (h : m.get k = some v) :
    (k, v) ∈ m.entries := by
  obtain ⟨⟨k', v'⟩, he, rfl⟩ := Option.map_eq_some_iff.1 h
  have : k' = k := by simpa using List.find?_some he
  exact this ▸ List.mem_of_find?_eq_some he

theorem get_eq_some_iff {m : JsMap κ ν} {k : κ} {v : ν} :
    m.get k = some v ↔ (k, v) ∈ m.entries := by
  refine ⟨mem_entries_of_get, fun h => ?_⟩
  unfold get
  cases hfind : m.entries.find? fun e => e.1 = k with
  | none => exact absurd (decide_eq_true rfl) (List.find?_eq_none.1 hfind (k, v) h)
  | some e =>
      have hkey : e.1 = k := by simpa using List.find?_some hfind
      rw [List.inj_on_of_nodup_map m.nodup (List.mem_of_find?_eq_some hfind) h hkey]
      rfl

theorem get_filter_iff {m : JsMap κ ν} {p : κ × ν → Bool} {k : κ} {v : ν} :
    (m.filter p).get k = some v ↔ m.get k = some v ∧ p (k, v) = true := by
  rw [get_eq_some_iff, get_eq_some_iff]
  exact List.mem_filter

theorem get_filter (m : JsMap κ ν) (p : κ × ν → Bool) (k : κ) :
    (m.filter p).get k = (m.get k).filter fun v => p (k, v) := by
  ext v
  rw [get_filter_iff, Option.filter_eq_some_iff]

/-- A value found in a map is one of its values. -/
theorem mem_values_of_get {m : JsMap κ ν} {k : κ} {v : ν} (h : m.get k = some v) :
    v ∈ m.values :=
  List.mem_map.2 ⟨_, mem_entries_of_get h, rfl⟩

theorem exists_get_of_mem_values {m : JsMap κ ν} {v : ν} (h : v ∈ m.values) :
    ∃ k, m.get k = some v := by
  obtain ⟨⟨k, v'⟩, hmem, rfl⟩ := List.mem_map.1 h
  refine ⟨k, ?_⟩
  cases hf : m.entries.find? fun e => e.1 = k with
  | none =>
      have := List.find?_eq_none.1 hf _ hmem
      simp at this
  | some e =>
      have he : e.1 = k := by simpa using List.find?_some hf
      have := List.inj_on_of_nodup_map m.nodup (List.mem_of_find?_eq_some hf) hmem he
      rw [get, hf, this]
      rfl

theorem notMem_keys {m : JsMap κ ν} {k : κ} (h : m.get k = none) : k ∉ m.entries.map Prod.fst := by
  intro hmem
  obtain ⟨e, he, rfl⟩ := List.mem_map.1 hmem
  have hfind := List.find?_eq_none.1 (Option.map_eq_none_iff.1 h) e he
  exact hfind (decide_eq_true rfl)

/-- The value of a new key comes last. -/
theorem values_set {m : JsMap κ ν} {k : κ} (h : m.get k = none) (v : ν) :
    (m.set k v).values = m.values ++ [v] := by
  show (assign k v m.entries).map Prod.snd = m.entries.map Prod.snd ++ [v]
  rw [assign_of_notMem (notMem_keys h), List.map_append, List.map_singleton]

/-- A value takes the place of the one that the key had. -/
theorem values_set_of_some {m : JsMap κ ν} {k : κ} {w : ν} (h : m.get k = some w) (v : ν) :
    (w :: (m.set k v).values).Perm (v :: m.values) := by
  have hassign : ∀ es : List (κ × ν), (es.find? fun e => e.1 = k).map Prod.snd = some w →
      (w :: (assign k v es).map Prod.snd).Perm (v :: es.map Prod.snd) := by
    intro es
    induction es with
    | nil => intro h; cases h
    | cons e es ih =>
        intro h
        unfold assign
        by_cases he : e.1 = k
        · rw [List.find?_cons_of_pos (by simpa using he)] at h
          rw [if_pos he, ← Option.some.inj h]
          exact List.Perm.swap ..
        · rw [List.find?_cons_of_neg (by simpa using he)] at h
          rw [if_neg he, List.map_cons, List.map_cons]
          exact (List.Perm.swap ..).trans (((ih h).cons e.2).trans (List.Perm.swap ..))
  exact hassign m.entries h

/-- A new key makes the map larger by one. -/
theorem size_set {m : JsMap κ ν} {k : κ} (h : m.get k = none) (v : ν) :
    (m.set k v).size = m.size + 1 := by
  show (assign k v m.entries).length = m.entries.length + 1
  rw [assign_of_notMem (notMem_keys h), List.length_append, List.length_singleton]

/-- A present key is assigned in its place. -/
theorem size_set_of_some {m : JsMap κ ν} {k : κ} {w : ν} (h : m.get k = some w) (v : ν) :
    (m.set k v).size = m.size := by
  have hmem : k ∈ m.entries.map Prod.fst := List.mem_map.2 ⟨_, mem_entries_of_get h, rfl⟩
  have hlength := congrArg List.length (map_fst_assign k v m.entries)
  rw [if_pos hmem, List.length_map, List.length_map] at hlength
  exact hlength

/-- An assignment makes the map larger by one at most. -/
theorem size_set_le (m : JsMap κ ν) (k : κ) (v : ν) : (m.set k v).size ≤ m.size + 1 := by
  cases h : m.get k with
  | none => exact Nat.le_of_eq (size_set h v)
  | some w => exact Nat.le_trans (Nat.le_of_eq (size_set_of_some h v)) (Nat.le_succ _)

theorem size_delete_le (m : JsMap κ ν) (k : κ) : (m.delete k).size ≤ m.size :=
  List.length_filter_le _ m.entries

/-- Deleting an entry makes the map smaller. -/
theorem size_delete_lt {m : JsMap κ ν} {e : κ × ν} (he : e ∈ m.entries) :
    (m.delete e.1).size < m.size :=
  List.length_filter_lt_length_iff_exists.2 ⟨e, he, by simp⟩

/-! ### Maps of a list of pairs -/

/-- The last pair with a key wins. -/
theorem get_foldl_set (ps : List (κ × ν)) (m : JsMap κ ν) (k : κ) :
    (ps.foldl (fun m p => m.set p.1 p.2) m).get k =
      ((ps.reverse.find? fun p => p.1 = k).map Prod.snd).or (m.get k) := by
  induction ps generalizing m with
  | nil => simp
  | cons p ps ih =>
      rw [List.foldl_cons, ih, get_set, List.reverse_cons, List.find?_append]
      cases ps.reverse.find? fun p => p.1 = k with
      | some p' => simp
      | none =>
          by_cases hk : k = p.1
          · simp [hk]
          · have hk' : p.1 ≠ k := Ne.symm hk
            simp [hk, hk']

/-- `{ ...m, ...m' }`. -/
def spread (m m' : JsMap κ ν) : JsMap κ ν := m'.entries.foldl (fun m e => m.set e.1 e.2) m

theorem get_spread (m m' : JsMap κ ν) (k : κ) : (m.spread m').get k = (m'.get k).or (m.get k) := by
  have hreverse : ∀ v, (m'.entries.reverse.find? fun e => e.1 = k).map Prod.snd = some v ↔
      m'.get k = some v := by
    intro v
    have hnodup : (m'.entries.reverse.map Prod.fst).Nodup := by
      rw [List.map_reverse, List.nodup_reverse]
      exact m'.nodup
    have hmem := get_eq_some_iff (m := ⟨m'.entries.reverse, hnodup⟩) (k := k) (v := v)
    rw [get_eq_some_iff, ← List.mem_reverse]
    exact hmem
  unfold spread
  rw [get_foldl_set]
  congr 1
  ext v
  exact hreverse v

theorem mem_of_get_ofList {ps : List (κ × ν)} {k : κ} {v : ν} (h : (ofList ps).get k = some v) :
    (k, v) ∈ ps := by
  rw [ofList, get_foldl_set, get_empty, Option.or_none] at h
  obtain ⟨⟨k', v'⟩, hfind, rfl⟩ := Option.map_eq_some_iff.1 h
  have hk : k' = k := by simpa using List.find?_some hfind
  have hmem := List.mem_of_find?_eq_some hfind
  rw [hk, List.mem_reverse] at hmem
  exact hmem

theorem key_ne_of_get_ofList {ps : List (κ × ν)} {k : κ} (h : (ofList ps).get k = none) {p : κ × ν}
    (hp : p ∈ ps) : p.1 ≠ k := by
  rw [ofList, get_foldl_set, get_empty, Option.or_none, Option.map_eq_none_iff,
    List.find?_eq_none] at h
  simpa using h p (List.mem_reverse.2 hp)

theorem get_ofList {ps : List (κ × ν)} (hnodup : (ps.map Prod.fst).Nodup) {k : κ} {v : ν}
    (h : (k, v) ∈ ps) : (ofList ps).get k = some v := by
  cases hget : (ofList ps).get k with
  | none => exact absurd rfl (key_ne_of_get_ofList hget h)
  | some v' =>
      have heq := List.inj_on_of_nodup_map hnodup (mem_of_get_ofList hget) h rfl
      rw [(Prod.mk.inj heq).2]

/-! ### Maps that agree on some keys -/

section
variable {m m' : JsMap κ ν} {K : κ → Prop} {k : κ}

/-- The same entries under the keys in `K`. -/
def SameOn (K : κ → Prop) (m m' : JsMap κ ν) : Prop := ∀ k, K k → m.get k = m'.get k

theorem SameOn.symm (h : SameOn K m m') : SameOn K m' m := fun k hk => (h k hk).symm

theorem SameOn.set (h : SameOn K m m') (k : κ) (v : ν) : SameOn K (m.set k v) (m'.set k v) := by
  intro k' hk'
  rw [get_set, get_set, h k' hk']

theorem SameOn.set_other (h : SameOn K m m') (hk : ¬K k) (v : ν) : SameOn K (m.set k v) m' := by
  intro k' hk'
  have hne : k' ≠ k := by
    rintro rfl
    exact hk hk'
  rw [get_set_of_ne _ _ hne, h k' hk']

theorem SameOn.delete (h : SameOn K m m') (k : κ) : SameOn K (m.delete k) (m'.delete k) := by
  intro k' hk'
  rw [get_delete, get_delete, h k' hk']

theorem SameOn.delete_other (h : SameOn K m m') (hk : ¬K k) : SameOn K (m.delete k) m' := by
  intro k' hk'
  have hne : k' ≠ k := by
    rintro rfl
    exact hk hk'
  rw [get_delete, if_neg hne, h k' hk']

theorem SameOn.filterKeys (h : SameOn K m m') {p p' : κ → Bool} (hp : ∀ k, K k → p k = p' k) :
    SameOn K (m.filterKeys p) (m'.filterKeys p') := by
  intro k hk
  rw [get_filterKeys, get_filterKeys, h k hk, hp k hk]

end

end JsMap
