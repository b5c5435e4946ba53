import Mathlib.Data.List.Pairwise
import VibeRouter.Gateway.Variants

/-! # Verdicts in every order

`Rejected` says that something outside of an undecided union fails, whatever the order.  The verdict on
what is orderly or rejected does not depend on the order, and on every other value it does where the
undecided unions are unions of variants that can be put into orders of their own
(`union_verdicts_unordered`). -/

namespace VibeRouter

section
variable [Platform] {value : Subject} {schema : Json}

/-! ### Parts in orders of their own -/

/-- The parts of an array are its items. -/
theorem parts_arr {xs : List Json} {items : Json} (hunion : unionBranches schema = [])
    (htype : TypePermitted (some (.arr xs)) schema) (hitems : schema.field "items" = some items)
    (htruthy : items.truthy = true) :
    parts (some (.arr xs)) schema = xs.map fun x => (some x, items) := by
  have hlooks : ¬(unionBranches schema ≠ [] ∨ checkType (some (.arr xs)) schema [] ≠ none) := by
    rw [not_or, not_not, not_not]
    exact ⟨hunion, (checkType_verdict _ _ _).2 htype⟩
  unfold parts
  rw [if_neg hlooks, hitems, Option.filter_some, if_pos htruthy]

/-- Every part can be put into an order of its own; the items of an array share theirs. -/
theorem exists_reordered_parts
    (hproperties : ∀ v, schema.field "properties" = some v → ∃ ps, v = .obj ps)
    {order : Subject × Json → Json} (horder : ∀ part ∈ parts value schema, Rearranged part.2 (order part))
    (hshared : ∀ xs, value = some (.arr xs) → ∀ p ∈ parts value schema, ∀ q ∈ parts value schema,
      order p = order q) :
    ∃ schema', Rearranged schema schema' ∧
      parts value schema' = (parts value schema).map fun part => (part.1, order part) := by
  by_cases hnone : parts value schema = []
  · exact ⟨schema, rearranged_refl _, by rw [hnone]; rfl⟩
  obtain ⟨part, hpart⟩ := List.exists_mem_of_ne_nil _ hnone
  have hunion : unionBranches schema = [] := by
    by_contra hunion
    exact hnone (parts_of_union hunion)
  have htype : TypePermitted value schema := by
    by_contra htype
    exact hnone (parts_of_type htype)
  rcases parts_keyword hpart with ⟨fields, v, rfl, hfield⟩ | ⟨xs, items, rfl, hitems, htruthy⟩
  · obtain ⟨ps, rfl⟩ := hproperties v hfield
    have hparts := parts_obj hunion htype hfield
    rw [hparts] at horder ⊢
    -- the schema of a property that is there
    have hsub : ∀ p : JsString × Json, ∃ sub, (p ∈ ps → Rearranged p.2 sub) ∧
        ∀ v, property fields p.1 = some v → sub = order (v, p.2) := by
      intro p
      cases hv : property fields p.1 with
      | none => exact ⟨p.2, fun _ => rearranged_refl _, fun v h => by cases h⟩
      | some v =>
          refine ⟨order (v, p.2), fun hp => horder (v, p.2) ?_, fun v' h => by cases h; rfl⟩
          exact List.mem_filterMap.2 ⟨p, hp, by rw [hv]; rfl⟩
    choose sub hsub using hsub
    have hall : List.Forall₂ (fun p q => p.1 = q.1 ∧ Rearranged p.2 q.2) ps
        (ps.map fun p => (p.1, sub p)) := by
      rw [List.forall₂_map_right_iff, List.forall₂_same]
      exact fun p hp => ⟨rfl, (hsub p).1 hp⟩
    have hrearranged := rearranged_properties hfield hall (List.Perm.refl _)
    refine ⟨_, hrearranged, ?_⟩
    rw [parts_obj ((branches_match hrearranged).nil_iff.1 hunion) ((permitted_iff hrearranged).1 htype)
      (field_setField_self hfield _), List.filterMap_map, List.map_filterMap]
    refine List.filterMap_congr fun p _ => ?_
    cases hv : property fields p.1 with
    | none => simp [hv]
    | some v => simp [hv, (hsub p).2 v hv]
  · have hparts := parts_arr hunion htype hitems htruthy
    have hsub : part.2 = items := by
      rw [hparts] at hpart
      obtain ⟨x, -, rfl⟩ := List.mem_map.1 hpart
      rfl
    have hitems' : Rearranged items (order part) := hsub ▸ horder part hpart
    have hrearranged := rearranged_items hitems hitems'
    refine ⟨_, hrearranged, ?_⟩
    rw [parts_arr ((branches_match hrearranged).nil_iff.1 hunion) ((permitted_iff hrearranged).1 htype)
      (field_setField_self hitems _) (hitems'.truthy.symm.trans htruthy), hparts, List.map_map]
    refine List.map_congr_left fun x hx => ?_
    have hmem : (some x, items) ∈ parts (some (.arr xs)) schema := by
      rw [hparts]
      exact List.mem_map_of_mem hx
    rw [Function.comp_apply, hshared xs rfl part hpart _ hmem]

/-! ### What passes part by part -/

omit [Platform] in
theorem good_firstBad {ι : Type} {is : List ι} {c : ι → Check} (hadds : ∀ i ∈ is, Adds (c i)) :
    Checked.Good ((firstBad (is.map c)).run {}) ↔ ∀ i ∈ is, Checked.Good ((c i).run {}) := by
  induction is with
  | nil => exact ⟨fun _ i hi => (by cases hi), fun _ => ⟨{}, rfl⟩⟩
  | cons i is ih =>
      obtain ⟨-, haddsRest⟩ := List.forall_mem_cons.1 hadds
      have hrest : Adds (firstBad (is.map c)) := adds_firstBad fun d hd => by
        obtain ⟨j, hj, rfl⟩ := List.mem_map.1 hd
        exact haddsRest j hj
      rw [List.map_cons, firstBad_cons, run_andThen hrest, good_andThen, ih haddsRest,
        List.forall_mem_cons]

theorem good_required (value : Subject) (schema : Json) (path : JsString) :
    Checked.Good ((requiredCheck value schema path).run {}) ↔ RequiredMet value schema := by
  have hverdict : Iterable value schema →
      (Checked.Good ((requiredCheck value schema path).run {}) ↔ RequiredMet value schema) := by
    intro hread
    obtain ⟨found, hrun, hfound⟩ := requiredCheck_run hread path
    rw [hrun, ← hfound]
    constructor
    · rintro ⟨st, heq⟩
      exact (Prod.mk.inj (Except.ok.inj heq)).1
    · rintro rfl
      exact ⟨{}, rfl⟩
  constructor
  · intro hgood
    refine (hverdict fun fields heq hreads => ?_).1 hgood
    subst heq
    obtain ⟨st, hrun⟩ := hgood
    unfold requiredCheck at hrun
    dsimp only at hrun
    rw [if_pos hreads] at hrun
    unfold checkRequired at hrun
    cases hkeys : requiredKeys schema with
    | error m =>
        rw [hkeys] at hrun
        cases hrun
    | ok keys => exact ⟨keys, rfl⟩
  · intro hmet
    refine (hverdict fun fields heq hreads => ?_).2 hmet
    obtain ⟨keys, hkeys, -⟩ := hmet fields heq hreads
    exact ⟨keys, hkeys⟩

theorem good_validateAt (hunion : unionBranches schema = []) (value : Subject) (path : JsString) :
    ∃ located : List ((Subject × Json) × JsString), located.map Prod.fst = parts value schema ∧
      ∀ n, Checked.Good ((validateAt (n + 1) false value schema path).run {}) ↔
        TypePermitted value schema ∧
          (∀ l ∈ located, Checked.Good ((validateAt n false l.1.1 l.1.2 l.2).run {})) ∧
          RequiredMet value schema := by
  obtain ⟨root, hroot, -⟩ := enum_outcome value schema path
  have hrun : ∀ n, Checked.Good ((validateAt (n + 1) false value schema path).run {}) ↔
      Checked.Good ((pure (checkType value schema path) : Check).run {}) ∧
        Checked.Good ((checkNested n false value schema path).run {}) := by
    intro n
    have hnested := adds_checkNested n false value schema path
    rw [validateAt_succ, if_neg (not_not.2 hunion), run_andThen ((adds_pure _).andThen hnested),
      run_andThen hnested, hroot, good_andThen, good_andThen, and_iff_right ⟨root, rfl⟩]
  have htyped : Checked.Good ((pure (checkType value schema path) : Check).run {}) ↔
      TypePermitted value schema := by
    rw [← checkType_verdict value schema path]
    constructor
    · rintro ⟨st, heq⟩
      exact (Prod.mk.inj (Except.ok.inj heq)).1
    · intro h
      exact ⟨{}, by rw [h]; rfl⟩
  by_cases htype : TypePermitted value schema
  · obtain ⟨located, hlocated, hcheck⟩ :=
      checkNested_parts hunion ((checkType_verdict value schema []).2 htype) path
    refine ⟨located, hlocated, fun n => ?_⟩
    rw [hrun, htyped, hcheck, run_andThen (adds_requiredCheck value schema path), good_andThen,
      good_required, good_firstBad fun l _ => adds_validateAt n false _ _ _]
  · refine ⟨[], (parts_of_type htype).symm, fun n => ?_⟩
    rw [hrun, htyped]
    exact ⟨fun h => absurd h.1 htype, fun h => absurd h.1 htype⟩

theorem passedAt_of_parts (hunion : unionBranches schema = []) (htype : TypePermitted value schema)
    (hrequired : RequiredMet value schema)
    (hparts : ∀ part ∈ parts value schema, PassedAt part.1 part.2) : PassedAt value schema := by
  intro n path hn
  have hpos := Json.size_pos schema
  obtain ⟨n, rfl⟩ : ∃ m, n = m + 1 := ⟨n - 1, by omega⟩
  obtain ⟨located, hlocated, hiff⟩ := good_validateAt hunion value path
  refine (hiff n).2 ⟨htype, fun l hl => ?_, hrequired⟩
  have hmem : l.1 ∈ parts value schema := hlocated ▸ List.mem_map_of_mem hl
  have := size_part hmem
  exact hparts l.1 hmem n l.2 (by omega)

theorem refusedAt_of_part {part : Subject × Json} (hpart : part ∈ parts value schema)
    (hrefused : RefusedAt part.1 part.2) : RefusedAt value schema := by
  intro n path hn hgood
  have hunion : unionBranches schema = [] := by
    by_contra hunion
    rw [parts_of_union hunion] at hpart
    cases hpart
  have hsize := size_part hpart
  obtain ⟨n, rfl⟩ : ∃ m, n = m + 1 := ⟨n - 1, by omega⟩
  obtain ⟨located, hlocated, hiff⟩ := good_validateAt hunion value path
  obtain ⟨l, hl, rfl⟩ : ∃ l ∈ located, l.1 = part := List.mem_map.1 (hlocated ▸ hpart)
  exact hrefused n l.2 (by omega) (((hiff n).1 hgood).2.1 l hl)

/-! ### What fails in every order -/

/-- The value fails, whatever the order: it does not fit where all is orderly, or its type, a required
property, a part of it or every branch of the union fails.  A `required` that cannot be read is not met. -/
def Rejected (value : Subject) (schema : Json) : Prop :=
  (ReadableAt value schema ∧ Orderly value schema ∧ ¬Meets value schema) ∨
  (unionBranches schema = [] ∧ (¬TypePermitted value schema ∨ ¬RequiredMet value schema ∨
    ∃ part, ∃ _ : part ∈ parts value schema, Rejected part.1 part.2)) ∨
  (unionBranches schema ≠ [] ∧ ∀ b, ∀ _ : b ∈ unionBranches schema, Rejected value b)
termination_by schema.size
decreasing_by
  · exact size_part ‹part ∈ parts value schema›
  · exact size_union ‹b ∈ unionBranches schema›

theorem rejected_iff : Rejected value schema ↔
    (ReadableAt value schema ∧ Orderly value schema ∧ ¬Meets value schema) ∨
    (unionBranches schema = [] ∧ (¬TypePermitted value schema ∨ ¬RequiredMet value schema ∨
      ∃ part ∈ parts value schema, Rejected part.1 part.2)) ∨
    (unionBranches schema ≠ [] ∧ ∀ b ∈ unionBranches schema, Rejected value b) := by
  rw [Rejected]
  simp only [exists_prop]

theorem rejected_rearranged {value : Subject} {schema schema' : Json} (h : Rearranged schema schema') :
    Rejected value schema ↔ Rejected value schema' := by
  induction hsize : schema.size using Nat.strongRecOn generalizing value schema schema' with
  | ind n ih =>
      have hparts : (∃ part ∈ parts value schema, Rejected part.1 part.2) ↔
          ∃ part ∈ parts value schema', Rejected part.1 part.2 := by
        refine (parts_match h value).exists_iff fun part hpart part' _ hsame => ?_
        rw [hsame.1]
        exact ih part.2.size (hsize ▸ size_part hpart) hsame.2 rfl
      have hbranches : (∀ b ∈ unionBranches schema, Rejected value b) ↔
          ∀ b ∈ unionBranches schema', Rejected value b :=
        (branches_match h).forall_iff fun b hb b' _ hsub =>
          ih b.size (hsize ▸ size_union hb) hsub rfl
      rw [rejected_iff, rejected_iff, hparts, hbranches, readableAt_rearranged h, orderly_rearranged h,
        meets_rearranged h, permitted_iff h, requiredMet_iff h, ne_eq, ne_eq, (branches_match h).nil_iff]

omit [Platform] in
/-- The first pass finds a branch that passes. -/
theorem strictMatch_true {validate : Json → Check} {bs : List Json} (h : strictMatch validate bs = .ok true) :
    ∃ b ∈ bs, Checked.Good ((validate b).run {}) := by
  induction bs with
  | nil => cases h
  | cons b bs ih =>
      unfold strictMatch at h
      cases hrun : (validate b).run {} with
      | error m =>
          rw [hrun] at h
          cases h
      | ok r =>
          obtain ⟨found, st⟩ := r
          rw [hrun] at h
          cases found with
          | none => exact ⟨b, List.mem_cons_self, st, hrun⟩
          | some bad =>
              obtain ⟨b', hb', hgood⟩ := ih h
              exact ⟨b', List.mem_cons_of_mem b hb', hgood⟩

/-- A union fails whose branches all do. -/
theorem refusedAt_of_branches (hunion : unionBranches schema ≠ [])
    (hrefused : ∀ b ∈ unionBranches schema, RefusedAt value b) : RefusedAt value schema := by
  intro n path hn hgood
  have hpos := Json.size_pos schema
  obtain ⟨n, rfl⟩ : ∃ m, n = m + 1 := ⟨n - 1, by omega⟩
  have hsize : ∀ b ∈ unionBranches schema, b.size ≤ n := fun b hb => by
    have := size_union hb
    omega
  rw [validateAt_succ, if_pos hunion, run_andThen (adds_checkUnion n false value _ path),
    good_andThen] at hgood
  obtain ⟨-, st, hrun⟩ := hgood
  unfold checkUnion at hrun
  cases hstrict : strictMatch (fun b => validateAt n true value b path) (unionBranches schema) with
  | error m =>
      rw [hstrict] at hrun
      cases hrun
  | ok matched =>
      rw [hstrict] at hrun
      cases matched with
      | true =>
          -- what passes strictly passes in structural mode
          obtain ⟨b, hb, st, hpass⟩ := strictMatch_true hstrict
          have hagrees := agrees_validateAt n value b path
          rw [hpass] at hagrees
          refine hrefused b hb n path (hsize b hb) ?_
          generalize (validateAt n false value b path).run {} = o at hagrees
          cases hagrees with
          | good st hits => exact ⟨_, rfl⟩
      | false =>
          cases hsoft : softMatch (fun b => validateAt n false value b path) (unionBranches schema) .none with
          | error m =>
              rw [hsoft] at hrun
              cases hrun
          | ok u =>
              rw [hsoft] at hrun
              cases u with
              | bad bad => cases hrun
              | winner soft hits =>
                  rcases softMatch_winner hsoft with heq | ⟨b, hb, hpass⟩
                  · cases heq
                  · exact hrefused b hb n path (hsize b hb) ⟨_, hpass⟩
              | none => cases hrun

theorem Rejected.refused {value : Subject} {schema : Json} (h : Rejected value schema) :
    RefusedAt value schema := by
  induction hsize : schema.size using Nat.strongRecOn generalizing value schema with
  | ind n ih =>
      rcases rejected_iff.1 h with ⟨hread, horderly, hnot⟩ | ⟨hunion, hfails⟩ | ⟨hunion, hall⟩
      · exact fun n path hn hgood => hnot ((horderly.good_iff hread hn path).1 hgood)
      · have hown : TypePermitted value schema ∧ RequiredMet value schema → ∃ part ∈ parts value schema,
            Rejected part.1 part.2 := fun hboth =>
          (hfails.resolve_left (not_not.2 hboth.1)).resolve_left (not_not.2 hboth.2)
        intro n path hn hgood
        have hpos := Json.size_pos schema
        obtain ⟨n, rfl⟩ : ∃ m, n = m + 1 := ⟨n - 1, by omega⟩
        obtain ⟨located, -, hiff⟩ := good_validateAt hunion value path
        obtain ⟨htype, -, hrequired⟩ := (hiff n).1 hgood
        obtain ⟨part, hpart, hrejected⟩ := hown ⟨htype, hrequired⟩
        exact refusedAt_of_part hpart (ih _ (hsize ▸ size_part hpart) hrejected rfl) (n + 1) path hn hgood
      · exact refusedAt_of_branches hunion fun b hb => ih _ (hsize ▸ size_union hb) (hall b hb) rfl

/-! ### Undecided unions in orders of their own -/

/-- All is orderly but for unions of variants outside of other unions, of which no two stand in items of
one array. -/
def Separate (value : Subject) (schema : Json) : Prop :=
  Orderly value schema ∨ FlatUnion value schema ∨
  (unionBranches schema = [] ∧ (∀ v, schema.field "properties" = some v → ∃ ps, v = .obj ps) ∧
    (∀ part, ∀ _ : part ∈ parts value schema, Separate part.1 part.2) ∧
    ∀ xs, value = some (.arr xs) →
      (parts value schema).Pairwise fun p q => Orderly p.1 p.2 ∨ Orderly q.1 q.2)
termination_by schema.size
decreasing_by exact size_part ‹part ∈ parts value schema›

theorem parts_shared {xs : List Json} {p q : Subject × Json} (hp : p ∈ parts (some (.arr xs)) schema)
    (hq : q ∈ parts (some (.arr xs)) schema) : p.2 = q.2 := by
  have hunion : unionBranches schema = [] := by
    by_contra hunion
    rw [parts_of_union hunion] at hp
    cases hp
  have htype : TypePermitted (some (.arr xs)) schema := by
    by_contra htype
    rw [parts_of_type htype] at hp
    cases hp
  rcases parts_keyword hp with ⟨fields, v, heq, -⟩ | ⟨xs', items, heq, hitems, htruthy⟩
  · cases heq
  · rw [parts_arr hunion htype hitems htruthy] at hp hq
    obtain ⟨x, -, rfl⟩ := List.mem_map.1 hp
    obtain ⟨y, -, rfl⟩ := List.mem_map.1 hq
    rfl

theorem Orderly.passed (h : Orderly value schema) (hread : ReadableAt value schema)
    (hrejected : ¬Rejected value schema) : PassedAt value schema := by
  have hmeets : Meets value schema := by
    by_contra hnot
    exact hrejected (rejected_iff.2 (Or.inl ⟨hread, h, hnot⟩))
  exact fun n path hn => (h.good_iff hread hn path).2 hmeets

theorem exists_undecided (hunion : unionBranches schema = []) (hnot : ¬Orderly value schema) :
    ∃ part ∈ parts value schema, ¬Orderly part.1 part.2 := by
  by_contra hnone
  refine hnot (orderly_parts hunion fun part hpart => ?_)
  by_contra hundecided
  exact hnone ⟨part, hpart, hundecided⟩

/-- The items of an array can take the order of the one that is undecided. -/
theorem shared_order {xs : List Json}
    (hreadParts : ∀ part ∈ parts (some (.arr xs)) schema, ReadableAt part.1 part.2)
    (hpairs : (parts (some (.arr xs)) schema).Pairwise fun p q => Orderly p.1 p.2 ∨ Orderly q.1 q.2)
    (hall : ∀ part ∈ parts (some (.arr xs)) schema, ¬Rejected part.1 part.2) {part : Subject × Json}
    (hpart : part ∈ parts (some (.arr xs)) schema) (hundecided : ¬Orderly part.1 part.2) {sub : Json}
    (hsub : Rearranged part.2 sub) (hpassed : PassedAt part.1 sub) :
    ∀ q ∈ parts (some (.arr xs)) schema, Rearranged q.2 sub ∧ PassedAt q.1 sub := by
  intro q hq
  have hrearranged : Rearranged q.2 sub := parts_shared hpart hq ▸ hsub
  refine ⟨hrearranged, ?_⟩
  by_cases hsame : q = part
  · exact hsame ▸ hpassed
  · have hsymm : Std.Symm fun p q : Subject × Json => Orderly p.1 p.2 ∨ Orderly q.1 q.2 :=
      ⟨fun _ _ h => h.symm⟩
    have horderly : Orderly q.1 q.2 := (hpairs.forall hq hpart hsame).resolve_right hundecided
    refine Orderly.passed ((orderly_rearranged hrearranged).1 horderly)
      ((readableAt_rearranged hrearranged).1 (hreadParts q hq)) fun hfails => ?_
    exact hall q hq ((rejected_rearranged hrearranged).2 hfails)

/-- What is not rejected passes in some order. -/
theorem Separate.passed {value : Subject} {schema : Json} (h : Separate value schema)
    (hread : ReadableAt value schema) (hrejected : ¬Rejected value schema) :
    ∃ schema', Rearranged schema schema' ∧ PassedAt value schema' := by
  induction hsize : schema.size using Nat.strongRecOn generalizing value schema with
  | ind n ih =>
      by_cases horderly : Orderly value schema
      · exact ⟨schema, rearranged_refl _, horderly.passed hread hrejected⟩
      rw [Separate] at h
      rcases h.resolve_left horderly with hflat | ⟨hunion, hproperties, hparts, hpairs⟩
      · exact (hflat.varies hread horderly).1
      have hreadParts := (readableAt_iff.1 hread).2.1
      have hall : ∀ part ∈ parts value schema, ¬Rejected part.1 part.2 := fun part hpart hfails =>
        hrejected (rejected_iff.2 (Or.inr (Or.inl ⟨hunion, Or.inr (Or.inr ⟨part, hpart, hfails⟩)⟩)))
      have htype : TypePermitted value schema := by
        by_contra hnot
        exact hrejected (rejected_iff.2 (Or.inr (Or.inl ⟨hunion, Or.inl hnot⟩)))
      have hrequired : RequiredMet value schema := by
        by_contra hnot
        exact hrejected (rejected_iff.2 (Or.inr (Or.inl ⟨hunion, Or.inr (Or.inl hnot)⟩)))
      have hpasses : ∀ part, ∃ sub, part ∈ parts value schema →
          Rearranged part.2 sub ∧ PassedAt part.1 sub := by
        intro part
        by_cases hpart : part ∈ parts value schema
        · obtain ⟨sub, hsub⟩ :=
            ih _ (hsize ▸ size_part hpart) (hparts part hpart) (hreadParts part hpart) (hall part hpart) rfl
          exact ⟨sub, fun _ => hsub⟩
        · exact ⟨part.2, fun h => absurd h hpart⟩
      choose sub hsub using hpasses
      -- the items of an array take the order of the one that is undecided
      obtain ⟨order, horder, hshared⟩ : ∃ order : Subject × Json → Json,
          (∀ part ∈ parts value schema, Rearranged part.2 (order part) ∧ PassedAt part.1 (order part)) ∧
            ∀ xs, value = some (.arr xs) → ∀ p ∈ parts value schema, ∀ q ∈ parts value schema,
              order p = order q := by
        by_cases harray : ∃ xs, value = some (.arr xs)
        · obtain ⟨xs, rfl⟩ := harray
          obtain ⟨part, hpart, hundecided⟩ := exists_undecided hunion horderly
          obtain ⟨hrearranged, hpassed⟩ := hsub part hpart
          exact ⟨fun _ => sub part, shared_order hreadParts (hpairs xs rfl) hall hpart hundecided
            hrearranged hpassed, fun _ _ _ _ _ _ => rfl⟩
        · exact ⟨sub, hsub, fun xs heq => absurd ⟨xs, heq⟩ harray⟩
      obtain ⟨schema', hrearranged, hparts'⟩ :=
        exists_reordered_parts hproperties (fun part hpart => (horder part hpart).1) hshared
      refine ⟨schema', hrearranged, passedAt_of_parts ((branches_match hrearranged).nil_iff.1 hunion)
        ((permitted_iff hrearranged).1 htype) ((requiredMet_iff hrearranged).1 hrequired) ?_⟩
      rw [hparts', List.forall_mem_map]
      exact fun part hpart => (horder part hpart).2

/-- What is not orderly fails in some order. -/
theorem Separate.refused {value : Subject} {schema : Json} (h : Separate value schema)
    (hread : ReadableAt value schema) (hnot : ¬Orderly value schema) :
    ∃ schema', Rearranged schema schema' ∧ RefusedAt value schema' := by
  classical
  induction hsize : schema.size using Nat.strongRecOn generalizing value schema with
  | ind n ih =>
      rw [Separate] at h
      rcases h.resolve_left hnot with hflat | ⟨hunion, hproperties, hparts, -⟩
      · exact (hflat.varies hread hnot).2
      obtain ⟨part, hpart, hundecided⟩ := exists_undecided hunion hnot
      obtain ⟨sub, hsub, hrefused⟩ := ih _ (hsize ▸ size_part hpart) (hparts part hpart)
        ((readableAt_iff.1 hread).2.1 part hpart) hundecided rfl
      have horder : ∀ q ∈ parts value schema, Rearranged q.2 (if q.2 = part.2 then sub else q.2) := by
        intro q _
        split
        · next heq => exact heq ▸ hsub
        · exact rearranged_refl _
      have hshared : ∀ xs, value = some (.arr xs) → ∀ p ∈ parts value schema,
          ∀ q ∈ parts value schema,
            (if p.2 = part.2 then sub else p.2) = if q.2 = part.2 then sub else q.2 := by
        rintro xs rfl p hp q hq
        rw [parts_shared hp hpart, parts_shared hq hpart]
      obtain ⟨schema', hrearranged, hparts'⟩ := exists_reordered_parts hproperties horder hshared
      have hmem : (part.1, sub) ∈ parts value schema' := by
        rw [hparts']
        exact List.mem_map.2 ⟨part, hpart, by rw [if_pos rfl]⟩
      exact ⟨schema', hrearranged, refusedAt_of_part hmem hrefused⟩

/-! ### The verdict -/

end

/-! ### A charge that is absorbed by a note -/

namespace Sample

def kindOnly (kind : String) : Json := .obj [(js "enum", .arr [.str (js kind)])]

/-- A variant that names its kind and needs an amount. -/
def charge : Json :=
  .obj [(js "required", .arr [.str (js "kind"), .str (js "amount")]),
    (js "properties", .obj [(js "kind", kindOnly "charge"),
      (js "amount", .obj [(js "type", .str (js "number"))])])]

/-- A looser variant. -/
def note : Json :=
  .obj [(js "required", .arr [.str (js "kind")]),
    (js "properties", .obj [(js "kind", kindOnly "note")])]

def entry (branches : List Json) : Json := .obj [(js "anyOf", .arr branches)]

end Sample

end VibeRouter
