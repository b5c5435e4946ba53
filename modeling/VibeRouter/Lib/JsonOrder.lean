import Mathlib.Data.List.Sort
import VibeRouter.Lib.JsonText

/-! # JSON up to the order of members

`SameUpToOrder` compares two values and passes over the order in which objects name their members.
Sorting the members gives every class one representative (`sortKeys_eq_iff`), and as texts are read
back, two values have the same canonical text exactly when they are the same up to this order
(`canonicalize_eq_iff`). -/

namespace Json

mutual

/-- The same value but for the order of the members of objects. -/
def SameUpToOrder : Json → Json → Prop
  | arr xs, w => ∃ ys, w = arr ys ∧ SameListUpToOrder xs ys
  | obj es, w => ∃ es', w = obj es' ∧ (es.map Prod.fst).Perm (es'.map Prod.fst) ∧
      SameEntriesUpToOrder es es'
  | v, w => w = v

def SameListUpToOrder : List Json → List Json → Prop
  | [], ys => ys = []
  | x :: xs, ys => ∃ y ys', ys = y :: ys' ∧ SameUpToOrder x y ∧ SameListUpToOrder xs ys'

/-- Each member has its like among the members `es'`. -/
def SameEntriesUpToOrder : List (JsString × Json) → List (JsString × Json) → Prop
  | [], _ => True
  | (k, v) :: es, es' => (∃ w, es'.lookup k = some w ∧ SameUpToOrder v w) ∧ SameEntriesUpToOrder es es'

end

mutual

/-- Every object names each member once. -/
def Distinct : Json → Prop
  | arr xs => DistinctList xs
  | obj es => (es.map Prod.fst).Nodup ∧ DistinctEntries es
  | _ => True

def DistinctList : List Json → Prop
  | [] => True
  | x :: xs => Distinct x ∧ DistinctList xs

def DistinctEntries : List (JsString × Json) → Prop
  | [] => True
  | (_, v) :: es => Distinct v ∧ DistinctEntries es

end

theorem DistinctEntries.mem {e : JsString × Json} {es : List (JsString × Json)}
    (h : DistinctEntries es) (he : e ∈ es) : Distinct e.2 := by
  induction es with
  | nil => cases he
  | cons d ds ih =>
      cases he with
      | head => exact h.1
      | tail _ he => exact ih h.2 he

theorem SameUpToOrder.entry {es es' : List (JsString × Json)} {k : JsString} {v : Json}
    (h : SameUpToOrder (obj es) (obj es')) (hv : (k, v) ∈ es) :
    ∃ w, es'.lookup k = some w ∧ SameUpToOrder v w := by
  obtain ⟨es₁, heq, -, hsame⟩ := h
  cases heq
  induction es with
  | nil => cases hv
  | cons e es ih =>
      cases hv with
      | head => exact hsame.1
      | tail _ hv => exact ih hv hsame.2

theorem SameUpToOrder.names {es es' : List (JsString × Json)}
    (h : SameUpToOrder (obj es) (obj es')) : (es.map Prod.fst).Perm (es'.map Prod.fst) := by
  obtain ⟨es₁, heq, hnames, -⟩ := h
  cases heq
  exact hnames

/-- Each name has the same value in both objects, or is in neither. -/
theorem SameUpToOrder.lookup {es es' : List (JsString × Json)}
    (h : SameUpToOrder (obj es) (obj es')) (k : JsString) :
    (es.lookup k = none ∧ es'.lookup k = none) ∨
      ∃ v w, es.lookup k = some v ∧ es'.lookup k = some w ∧ SameUpToOrder v w := by
  cases hv : es.lookup k with
  | some v =>
      obtain ⟨w, hw, hsame⟩ := h.entry (mem_of_lookup hv)
      exact Or.inr ⟨v, w, rfl, hw, hsame⟩
  | none =>
      refine Or.inl ⟨rfl, ?_⟩
      cases hw : es'.lookup k with
      | none => rfl
      | some w =>
          have hname : k ∈ es.map Prod.fst :=
            h.names.symm.subset (List.mem_map_of_mem (mem_of_lookup hw))
          obtain ⟨e, he, rfl⟩ := List.mem_map.1 hname
          exact absurd (List.lookup_eq_none_iff.1 hv e he) (by simp)

/-- A member that is a string is the same string. -/
theorem SameUpToOrder.lookup_str {es es' : List (JsString × Json)}
    (h : SameUpToOrder (obj es) (obj es')) {k s s' : JsString} (hs : es.lookup k = some (str s))
    (hs' : es'.lookup k = some (str s')) : s = s' := by
  rcases h.lookup k with ⟨hnone, -⟩ | ⟨v, w, hv, hw, hsame⟩
  · rw [hs] at hnone
    cases hnone
  · rw [hs] at hv
    rw [hs'] at hw
    cases hv
    cases hw
    exact (Json.str.inj hsame).symm

/-- Lists are told apart by what their elements are told apart by. -/
theorem SameListUpToOrder.eq_of_map {α : Type} {f : α → Json}
    (hf : ∀ a b, SameUpToOrder (f a) (f b) → a = b) {as bs : List α}
    (h : SameListUpToOrder (as.map f) (bs.map f)) : as = bs := by
  induction as generalizing bs with
  | nil =>
      rw [List.map_nil, SameListUpToOrder, List.map_eq_nil_iff] at h
      exact h.symm
  | cons a as ih =>
      obtain ⟨y, ys, heq, hsame, hrest⟩ := h
      cases bs with
      | nil => cases heq
      | cons b bs =>
          obtain ⟨rfl, rfl⟩ := List.cons.inj heq
          rw [hf a b hsame, ih hrest]

/-! ### Sorting -/

theorem sortKeysEntries_eq (es : List (JsString × Json)) :
    sortKeysEntries es = es.map fun e => (e.1, sortKeys e.2) := by
  induction es with
  | nil => rfl
  | cons e es ih => rw [sortKeysEntries, ih, List.map_cons]

theorem map_fst_sortKeysEntries (es : List (JsString × Json)) :
    (sortKeysEntries es).map Prod.fst = es.map Prod.fst := by
  rw [sortKeysEntries_eq, List.map_map]
  rfl

/-- Members by the order of their names. -/
def byName (es : List (JsString × Json)) : List (JsString × Json) :=
  es.insertionSort fun a b => a.1 ≤ b.1

theorem byName_perm (es : List (JsString × Json)) : (byName es).Perm es :=
  List.perm_insertionSort _ es

/-- Members with distinct names have one order by name. -/
theorem byName_eq_iff {es es' : List (JsString × Json)} (hnodup : (es.map Prod.fst).Nodup) :
    byName es = byName es' ↔ es.Perm es' := by
  constructor
  · intro heq
    exact (byName_perm es).symm.trans (heq ▸ byName_perm es')
  · intro hperm
    have hsorted : ∀ es : List (JsString × Json), (byName es).Pairwise fun a b => a.1 ≤ b.1 :=
      fun es => List.pairwise_insertionSort _ es
    have hsame : (byName es).Perm (byName es') :=
      (byName_perm es).trans (hperm.trans (byName_perm es').symm)
    refine List.Perm.eq_of_pairwise ?_ (hsorted es) (hsorted es') hsame
    intro a b ha hb hab hba
    have ha' : a ∈ es := (byName_perm es).subset ha
    have hb' : b ∈ es := hperm.symm.subset ((byName_perm es').subset hb)
    exact List.inj_on_of_nodup_map hnodup ha' hb' (le_antisymm hab hba)

theorem sortKeys_obj (es : List (JsString × Json)) :
    sortKeys (obj es) = obj (byName (sortKeysEntries es)) := by
  rw [sortKeys]
  rfl

/-! ### One representative -/

theorem lookup_eq_some_iff {es : List (JsString × Json)} {k : JsString} {v : Json}
    (hnodup : (es.map Prod.fst).Nodup) : es.lookup k = some v ↔ (k, v) ∈ es := by
  constructor
  · exact mem_of_lookup
  · intro hmem
    induction es with
    | nil => cases hmem
    | cons e es ih =>
        obtain ⟨hnew, hrest⟩ := List.nodup_cons.1 hnodup
        rw [List.lookup_cons]
        cases hmem with
        | head => rw [beq_self_eq_true]
        | tail _ hmem =>
            have hne : k ≠ e.1 := fun heq => hnew (heq ▸ List.mem_map_of_mem hmem)
            rw [beq_eq_false_iff_ne.2 hne]
            exact ih hrest hmem

mutual

/-- **Values are the same up to the order of members exactly when they are sorted alike.** -/
theorem sortKeys_eq_iff {v w : Json} (hv : Distinct v) (hw : Distinct w) :
    sortKeys v = sortKeys w ↔ SameUpToOrder v w := by
  cases v with
  | arr xs =>
      rw [SameUpToOrder, sortKeys]
      constructor
      · intro heq
        cases w with
        | arr ys =>
            rw [sortKeys] at heq
            exact ⟨ys, rfl, (sortKeysList_eq_iff hv hw).1 (arr.inj heq)⟩
        | _ => cases heq
      · rintro ⟨ys, rfl, hsame⟩
        rw [sortKeys, (sortKeysList_eq_iff hv hw).2 hsame]
  | obj es =>
      rw [SameUpToOrder, sortKeys_obj]
      constructor
      · intro heq
        cases w with
        | obj es' =>
            rw [sortKeys_obj] at heq
            have hnodup : ((sortKeysEntries es).map Prod.fst).Nodup := by
              rw [map_fst_sortKeysEntries]
              exact hv.1
            have hperm := (byName_eq_iff hnodup).1 (obj.inj heq)
            refine ⟨es', rfl, ?_, ?_⟩
            · rw [← map_fst_sortKeysEntries es, ← map_fst_sortKeysEntries es']
              exact hperm.map Prod.fst
            · exact (sortKeysEntries_subset_iff hv.2 hw.1 hw.2).1 hperm.subset
        | _ => cases heq
      · rintro ⟨es', rfl, hnames, hsame⟩
        have hsubset := (sortKeysEntries_subset_iff hv.2 hw.1 hw.2).2 hsame
        have hnodup : ((sortKeysEntries es).map Prod.fst).Nodup := by
          rw [map_fst_sortKeysEntries]
          exact hv.1
        have hlength : (sortKeysEntries es').length ≤ (sortKeysEntries es).length := by
          rw [sortKeysEntries_eq, sortKeysEntries_eq, List.length_map, List.length_map]
          have hnames := hnames.length_eq
          rw [List.length_map, List.length_map] at hnames
          omega
        have hperm : (sortKeysEntries es).Perm (sortKeysEntries es') :=
          (List.subperm_of_subset (List.Nodup.of_map _ hnodup) hsubset).perm_of_length_le hlength
        rw [sortKeys_obj, (byName_eq_iff hnodup).2 hperm]
  | _ => cases w <;> simp [sortKeys, SameUpToOrder, eq_comm]

theorem sortKeysList_eq_iff {xs ys : List Json} (hxs : DistinctList xs) (hys : DistinctList ys) :
    sortKeysList xs = sortKeysList ys ↔ SameListUpToOrder xs ys := by
  cases xs with
  | nil =>
      rw [SameListUpToOrder]
      cases ys <;> simp [sortKeysList]
  | cons x xs =>
      rw [SameListUpToOrder]
      cases ys with
      | nil => simp [sortKeysList]
      | cons y ys =>
          rw [sortKeysList, sortKeysList, List.cons.injEq, sortKeys_eq_iff hxs.1 hys.1,
            sortKeysList_eq_iff hxs.2 hys.2]
          constructor
          · rintro ⟨hx, hxs⟩
            exact ⟨y, ys, rfl, hx, hxs⟩
          · rintro ⟨y', ys', heq, hx, hxs⟩
            cases heq
            exact ⟨hx, hxs⟩

theorem sortKeysEntries_subset_iff {es es' : List (JsString × Json)} (hes : DistinctEntries es)
    (hnodup : (es'.map Prod.fst).Nodup) (hes' : DistinctEntries es') :
    sortKeysEntries es ⊆ sortKeysEntries es' ↔ SameEntriesUpToOrder es es' := by
  cases es with
  | nil =>
      rw [SameEntriesUpToOrder, sortKeysEntries]
      exact iff_of_true (List.nil_subset _) trivial
  | cons e es =>
      obtain ⟨k, v⟩ := e
      rw [SameEntriesUpToOrder, sortKeysEntries, List.cons_subset,
        sortKeysEntries_subset_iff hes.2 hnodup hes', sortKeysEntries_eq es', List.mem_map]
      refine and_congr_left fun _ => ⟨?_, ?_⟩
      · rintro ⟨e, hmem, heq⟩
        obtain ⟨rfl, hvalue⟩ := Prod.mk.inj heq
        refine ⟨e.2, (lookup_eq_some_iff hnodup).2 hmem, ?_⟩
        exact (sortKeys_eq_iff hes.1 (hes'.mem hmem)).1 hvalue.symm
      · rintro ⟨w, hlookup, hsame⟩
        have hmem := mem_of_lookup hlookup
        refine ⟨(k, w), hmem, ?_⟩
        rw [(sortKeys_eq_iff hes.1 (hes'.mem hmem)).2 hsame]

end

/-! ### Canonical texts -/

section
variable {number : ℚ → JsString}

theorem writableEntries_iff {es : List (JsString × Json)} :
    WritableEntries number es ↔ ∀ e ∈ es, Writable number e.2 := by
  induction es with
  | nil => exact iff_of_true trivial fun e he => by cases he
  | cons e es ih => rw [WritableEntries, ih, List.forall_mem_cons]

mutual

theorem Writable.distinct {v : Json} (h : Writable number v) : Distinct v := by
  cases v with
  | arr xs =>
      have h : WritableList number xs := h
      exact h.distinct
  | obj es => exact ⟨h.1, WritableEntries.distinct h.2⟩
  | _ => trivial

theorem WritableList.distinct {xs : List Json} (h : WritableList number xs) : DistinctList xs := by
  cases xs with
  | nil => trivial
  | cons x xs => exact ⟨h.1.distinct, h.2.distinct⟩

theorem WritableEntries.distinct {es : List (JsString × Json)} (h : WritableEntries number es) :
    DistinctEntries es := by
  cases es with
  | nil => trivial
  | cons e es => exact ⟨h.1.distinct, h.2.distinct⟩

end

mutual

theorem writable_sortKeys {v : Json} : Writable number (sortKeys v) ↔ Writable number v := by
  cases v with
  | arr xs =>
      have h : WritableList number (sortKeysList xs) ↔ WritableList number xs :=
        writableList_sortKeys
      exact h
  | obj es =>
      rw [sortKeys_obj]
      have hperm := byName_perm (sortKeysEntries es)
      refine and_congr ?_ (Iff.trans ?_ writableEntries_sortKeys)
      · rw [(hperm.map Prod.fst).nodup_iff, map_fst_sortKeysEntries]
      · rw [writableEntries_iff, writableEntries_iff]
        exact forall_congr' fun e => imp_congr_left hperm.mem_iff
  | _ => exact Iff.rfl

theorem writableList_sortKeys {xs : List Json} :
    WritableList number (sortKeysList xs) ↔ WritableList number xs := by
  cases xs with
  | nil => exact Iff.rfl
  | cons x xs => exact and_congr writable_sortKeys writableList_sortKeys

theorem writableEntries_sortKeys {es : List (JsString × Json)} :
    WritableEntries number (sortKeysEntries es) ↔ WritableEntries number es := by
  cases es with
  | nil => exact Iff.rfl
  | cons e es => exact and_congr writable_sortKeys writableEntries_sortKeys

end

/-- What is the same as a writable value can be written as well. -/
theorem SameUpToOrder.writable {v w : Json} (h : SameUpToOrder v w) (hv : Writable number v)
    (hw : Distinct w) : Writable number w := by
  have hsorted : sortKeys v = sortKeys w := (sortKeys_eq_iff hv.distinct hw).2 h
  rw [← writable_sortKeys, ← hsorted, writable_sortKeys]
  exact hv

/-- Different values have different texts. -/
theorem stringify_inj {v w : Json} (hv : Writable number v) (hw : Writable number w)
    (heq : stringify number v = stringify number w) : v = w := by
  have hread := parse_stringify hv
  rw [heq, parse_stringify hw] at hread
  exact (Option.some.inj hread).symm

/-- **Canonical texts are equal exactly for values that are the same up to the order of members.** -/
theorem canonicalize_eq_iff {v w : Json} (hv : Writable number v) (hw : Writable number w) :
    canonicalize number v = canonicalize number w ↔ SameUpToOrder v w := by
  rw [← sortKeys_eq_iff hv.distinct hw.distinct]
  unfold canonicalize
  exact ⟨stringify_inj (writable_sortKeys.2 hv) (writable_sortKeys.2 hw),
    congrArg (stringify number)⟩

/-! ### The recursion of canonical texts -/

theorem stringifyList_eq (xs : List Json) :
    stringifyList number xs = [44].intercalate (xs.map (stringify number)) := by
  induction xs with
  | nil => rfl
  | cons x xs ih =>
      cases xs with
      | nil => simp [stringifyList]
      | cons y ys =>
          rw [stringifyList, ih]
          simp [List.intercalate_cons_cons]

theorem stringifyEntries_eq (es : List (JsString × Json)) : stringifyEntries number es =
    [44].intercalate (es.map fun e => quote e.1 ++ 58 :: stringify number e.2) := by
  induction es with
  | nil => rfl
  | cons e es ih =>
      cases es with
      | nil => simp [stringifyEntries]
      | cons e' es =>
          rw [stringifyEntries, ih]
          simp [List.intercalate_cons_cons]

theorem canonicalize_arr (xs : List Json) : canonicalize number (arr xs) =
    91 :: [44].intercalate (xs.map (canonicalize number)) ++ [93] := by
  have hlist : sortKeysList xs = xs.map sortKeys := by
    induction xs with
    | nil => rfl
    | cons x xs ih => rw [sortKeysList, ih, List.map_cons]
  unfold canonicalize
  rw [sortKeys, stringify, stringifyList_eq, hlist, List.map_map]
  rfl

theorem canonicalize_obj (es : List (JsString × Json)) : canonicalize number (obj es) =
    123 :: [44].intercalate ((byName es).map fun e => quote e.1 ++ 58 :: canonicalize number e.2) ++
      [125] := by
  have hmap : byName (sortKeysEntries es) = (byName es).map fun e => (e.1, sortKeys e.2) := by
    unfold byName
    rw [sortKeysEntries_eq]
    exact (List.map_insertionSort (fun a b : JsString × Json => a.1 ≤ b.1)
      (fun a b : JsString × Json => a.1 ≤ b.1) (fun e => (e.1, sortKeys e.2)) es
      fun _ _ _ _ => Iff.rfl).symm
  unfold canonicalize
  rw [sortKeys_obj, stringify, stringifyEntries_eq, hmap, List.map_map]
  rfl

end

end Json
