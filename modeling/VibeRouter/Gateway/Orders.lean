import VibeRouter.Gateway.Unions

/-! # Other orders of a schema

`Rearranged` relates a schema to the ones that list properties and branches in another order.  What fits
a schema does not depend on the order (`meets_rearranged`), and so structural validation does not where it
is orderly (`accepted_iff_meets`). -/

namespace VibeRouter

/-! ### Other orders -/

/-- The keywords below which a schema has schemas. -/
def NESTING : List JsString := ["properties", "items", "anyOf", "oneOf"].map js

/-- The same schema but for the order of properties and of branches, in it and in the schemas below
it. -/
def Rearranged (schema schema' : Json) : Prop :=
  schema = schema' ∨
  ((∃ es, schema = .obj es) ∧ (∃ es, schema' = .obj es) ∧
    (∀ name, js name ∉ NESTING → schema.field name = schema'.field name) ∧
    (schema.field "properties" = schema'.field "properties" ∨
      ∃ ps ps' qs, ∃ _ : schema.field "properties" = some (.obj ps),
        schema'.field "properties" = some (.obj ps') ∧ qs.Perm ps' ∧
          ps.map Prod.fst = qs.map Prod.fst ∧ ∀ pq, ∀ _ : pq ∈ ps.zip qs, Rearranged pq.1.2 pq.2.2) ∧
    (schema.field "items" = schema'.field "items" ∨
      ∃ items items', ∃ _ : schema.field "items" = some items,
        schema'.field "items" = some items' ∧ Rearranged items items') ∧
    ∀ key ∈ UNIONS, schema.field key = schema'.field key ∨
      ∃ bs bs' cs, ∃ _ : schema.field key = some (.arr bs), schema'.field key = some (.arr bs') ∧
        cs.Perm bs' ∧ bs.length = cs.length ∧ ∀ bc, ∀ _ : bc ∈ bs.zip cs, Rearranged bc.1 bc.2)
termination_by schema.size
decreasing_by
  · exact (Json.size_mem_obj (List.of_mem_zip ‹pq ∈ ps.zip qs›).1).trans
      (Json.size_field ‹_ = some (Json.obj ps)›)
  · exact Json.size_field ‹_ = some items›
  · exact (Json.size_mem_arr (List.of_mem_zip ‹bc ∈ bs.zip cs›).1).trans
      (Json.size_field ‹_ = some (Json.arr bs)›)

/-- Every element of either list has a partner in the other one. -/
def Matches {α β : Type} (r : α → β → Prop) (xs : List α) (ys : List β) : Prop :=
  (∀ x ∈ xs, ∃ y ∈ ys, r x y) ∧ ∀ y ∈ ys, ∃ x ∈ xs, r x y

section
variable {α β : Type} {r : α → β → Prop} {xs : List α} {ys : List β}

theorem matches_of_zip {zs : List β} (hperm : zs.Perm ys) (hlength : xs.length = zs.length)
    (h : ∀ xz ∈ xs.zip zs, r xz.1 xz.2) : Matches r xs ys := by
  constructor
  · intro x hx
    obtain ⟨i, hi, rfl⟩ := List.mem_iff_getElem.1 hx
    have hi' : i < zs.length := hlength ▸ hi
    have hmem : (xs[i], zs[i]) ∈ xs.zip zs := by
      rw [List.mem_iff_getElem]
      exact ⟨i, by rw [List.length_zip, ← hlength, Nat.min_self]; exact hi, List.getElem_zip⟩
    exact ⟨_, hperm.mem_iff.1 (List.of_mem_zip hmem).2, h _ hmem⟩
  · intro y hy
    obtain ⟨i, hi, rfl⟩ := List.mem_iff_getElem.1 (hperm.mem_iff.2 hy)
    have hi' : i < xs.length := hlength ▸ hi
    have hmem : (xs[i], zs[i]) ∈ xs.zip zs := by
      rw [List.mem_iff_getElem]
      exact ⟨i, by rw [List.length_zip, hlength, Nat.min_self]; exact hi, List.getElem_zip⟩
    exact ⟨_, (List.of_mem_zip hmem).1, h _ hmem⟩

theorem Matches.forall_iff (h : Matches r xs ys) {p : α → Prop} {q : β → Prop}
    (hpq : ∀ x ∈ xs, ∀ y ∈ ys, r x y → (p x ↔ q y)) : (∀ x ∈ xs, p x) ↔ ∀ y ∈ ys, q y := by
  constructor
  · intro hall y hy
    obtain ⟨x, hx, hr⟩ := h.2 y hy
    exact (hpq x hx y hy hr).1 (hall x hx)
  · intro hall x hx
    obtain ⟨y, hy, hr⟩ := h.1 x hx
    exact (hpq x hx y hy hr).2 (hall y hy)

theorem Matches.exists_iff (h : Matches r xs ys) {p : α → Prop} {q : β → Prop}
    (hpq : ∀ x ∈ xs, ∀ y ∈ ys, r x y → (p x ↔ q y)) : (∃ x ∈ xs, p x) ↔ ∃ y ∈ ys, q y := by
  constructor
  · intro hsome
    obtain ⟨x, hx, hp⟩ := hsome
    obtain ⟨y, hy, hr⟩ := h.1 x hx
    exact ⟨y, hy, (hpq x hx y hy hr).1 hp⟩
  · intro hsome
    obtain ⟨y, hy, hq⟩ := hsome
    obtain ⟨x, hx, hr⟩ := h.2 y hy
    exact ⟨x, hx, (hpq x hx y hy hr).2 hq⟩

theorem Matches.nil_iff (h : Matches r xs ys) : xs = [] ↔ ys = [] := by
  constructor
  · rintro rfl
    refine List.eq_nil_iff_forall_not_mem.2 fun y hy => ?_
    obtain ⟨x, hx, -⟩ := h.2 y hy
    cases hx
  · rintro rfl
    refine List.eq_nil_iff_forall_not_mem.2 fun x hx => ?_
    obtain ⟨y, hy, -⟩ := h.1 x hx
    cases hy

theorem matches_refl {r : α → α → Prop} (hr : ∀ x, r x x) (xs : List α) : Matches r xs xs :=
  ⟨fun x hx => ⟨x, hx, hr x⟩, fun x hx => ⟨x, hx, hr x⟩⟩

end


section
variable {schema schema' : Json}

/-! ### What validation looks at in another order -/

/-- A keyword without schemas below it stays. -/
theorem Rearranged.field (h : Rearranged schema schema') {name : String} (hname : js name ∉ NESTING) :
    schema.field name = schema'.field name := by
  rw [Rearranged] at h
  rcases h with rfl | ⟨-, -, hfields, -⟩
  · rfl
  · exact hfields name hname

theorem rearranged_refl (schema : Json) : Rearranged schema schema := by
  rw [Rearranged]
  exact Or.inl rfl

/-- The entries of `properties` have partners of the same name. -/
theorem Rearranged.properties (h : Rearranged schema schema') :
    schema.field "properties" = schema'.field "properties" ∨
    ∃ ps ps', schema.field "properties" = some (.obj ps) ∧ schema'.field "properties" = some (.obj ps') ∧
      Matches (fun p q => p.1 = q.1 ∧ Rearranged p.2 q.2) ps ps' := by
  rw [Rearranged] at h
  rcases h with rfl | ⟨-, -, -, hproperties, -⟩
  · exact Or.inl rfl
  rcases hproperties with heq | ⟨ps, ps', qs, hps, hps', hperm, hnames, hall⟩
  · exact Or.inl heq
  refine Or.inr ⟨ps, ps', hps, hps', matches_of_zip hperm ?_ fun pq hpq => ⟨?_, hall pq hpq⟩⟩
  · simpa using congrArg List.length hnames
  · obtain ⟨i, hi, rfl⟩ := List.mem_iff_getElem.1 hpq
    rw [List.length_zip] at hi
    have hname := congrArg (fun names => names[i]?) hnames
    simp only [List.getElem?_map, List.getElem_zip] at hname ⊢
    rw [List.getElem?_eq_getElem (by omega), List.getElem?_eq_getElem (by omega)] at hname
    exact Option.some.inj hname

theorem Rearranged.items (h : Rearranged schema schema') :
    schema.field "items" = schema'.field "items" ∨
    ∃ items items', schema.field "items" = some items ∧ schema'.field "items" = some items' ∧
      Rearranged items items' := by
  rw [Rearranged] at h
  rcases h with rfl | ⟨-, -, -, -, hitems, -⟩
  · exact Or.inl rfl
  rcases hitems with heq | ⟨items, items', hi, hi', hsub⟩
  · exact Or.inl heq
  · exact Or.inr ⟨items, items', hi, hi', hsub⟩

theorem Rearranged.union (h : Rearranged schema schema') {key : String} (hkey : key ∈ UNIONS) :
    schema.field key = schema'.field key ∨
    ∃ bs bs', schema.field key = some (.arr bs) ∧ schema'.field key = some (.arr bs') ∧
      Matches Rearranged bs bs' := by
  rw [Rearranged] at h
  rcases h with rfl | ⟨-, -, -, -, -, hunions⟩
  · exact Or.inl rfl
  rcases hunions key hkey with heq | ⟨bs, bs', cs, hbs, hbs', hperm, hlength, hall⟩
  · exact Or.inl heq
  · exact Or.inr ⟨bs, bs', hbs, hbs', matches_of_zip hperm hlength fun bc hbc => hall bc hbc⟩

/-- A schema that is there and truthy is so in another order. -/
theorem Rearranged.truthy (h : Rearranged schema schema') : schema.truthy = schema'.truthy := by
  rw [Rearranged] at h
  rcases h with rfl | ⟨⟨es, rfl⟩, ⟨es', rfl⟩, -⟩ <;> rfl

theorem branches_match (h : Rearranged schema schema') :
    Matches Rearranged (unionBranches schema) (unionBranches schema') := by
  have hone := h.union (show "oneOf" ∈ UNIONS by decide)
  have hany := h.union (show "anyOf" ∈ UNIONS by decide)
  unfold unionBranches
  rcases hany with heq | ⟨bs, bs', hbs, hbs', hmatch⟩
  · rw [← heq]
    rcases hone with heq' | ⟨bs, bs', hbs, hbs', hmatch⟩
    · rw [← heq']
      exact matches_refl rearranged_refl _
    · rw [hbs, hbs']
      cases schema.field "anyOf" with
      | none => exact hmatch
      | some v =>
          cases v with
          | null => exact hmatch
          | _ => exact matches_refl rearranged_refl _
  · rw [hbs, hbs']
    exact hmatch

theorem readsObject_eq (h : Rearranged schema schema') : readsObject schema = readsObject schema' := by
  unfold readsObject
  rw [h.field (show js "required" ∉ NESTING by decide)]
  rcases h.properties with heq | ⟨ps, ps', hps, hps', -⟩
  · rw [heq]
  · rw [hps, hps']
    rfl

end

section
variable [Platform] {value : Subject} {schema schema' : Json}

theorem enumMet_iff (h : Rearranged schema schema') :
    EnumMet value schema ↔ EnumMet value schema' := by
  unfold EnumMet
  rw [h.field (show js "enum" ∉ NESTING by decide)]

theorem enumMissed_iff (h : Rearranged schema schema') :
    EnumMissed value schema ↔ EnumMissed value schema' := by
  unfold EnumMissed
  rw [h.field (show js "enum" ∉ NESTING by decide)]

theorem checkType_eq (h : Rearranged schema schema') (path : JsString) :
    checkType value schema path = checkType value schema' path := by
  unfold checkType
  rw [h.field (show js "type" ∉ NESTING by decide), h.field (show js "nullable" ∉ NESTING by decide)]

theorem permitted_iff (h : Rearranged schema schema') :
    TypePermitted value schema ↔ TypePermitted value schema' := by
  rw [← checkType_verdict value schema [], ← checkType_verdict value schema' [], checkType_eq h]

theorem requiredKeys_eq (h : Rearranged schema schema') : requiredKeys schema = requiredKeys schema' := by
  unfold requiredKeys
  rw [h.field (show js "required" ∉ NESTING by decide)]

theorem requiredMet_iff (h : Rearranged schema schema') :
    RequiredMet value schema ↔ RequiredMet value schema' := by
  unfold RequiredMet
  rw [readsObject_eq h, requiredKeys_eq h]

theorem iterable_iff (h : Rearranged schema schema') :
    Iterable value schema ↔ Iterable value schema' := by
  unfold Iterable
  rw [readsObject_eq h, requiredKeys_eq h]

/-- The same value under a rearranged schema. -/
def SamePart (part part' : Subject × Json) : Prop := part.1 = part'.1 ∧ Rearranged part.2 part'.2

omit [Platform] in
theorem presentProperties_match (h : Rearranged schema schema') (fields : List (JsString × Json)) :
    Matches SamePart ((presentProperties fields schema).map Prod.snd)
      ((presentProperties fields schema').map Prod.snd) := by
  rcases h.properties with heq | ⟨ps, ps', hps, hps', hmatch⟩
  · unfold presentProperties
    rw [heq]
    exact matches_refl (fun part => ⟨rfl, rearranged_refl part.2⟩) _
  · constructor
    · intro part hpart
      obtain ⟨q, hq, rfl⟩ := List.mem_map.1 hpart
      obtain ⟨p, hp, v, hv, rfl⟩ := (mem_presentProperties hps).1 hq
      obtain ⟨p', hp', hname, hsub⟩ := hmatch.1 p hp
      refine ⟨(v, p'.2), List.mem_map.2 ⟨(p'.1, v, p'.2), ?_, rfl⟩, rfl, hsub⟩
      exact (mem_presentProperties hps').2 ⟨p', hp', v, hname ▸ hv, rfl⟩
    · intro part hpart
      obtain ⟨q, hq, rfl⟩ := List.mem_map.1 hpart
      obtain ⟨p', hp', v, hv, rfl⟩ := (mem_presentProperties hps').1 hq
      obtain ⟨p, hp, hname, hsub⟩ := hmatch.2 p' hp'
      refine ⟨(v, p.2), List.mem_map.2 ⟨(p.1, v, p.2), ?_, rfl⟩, rfl, hsub⟩
      exact (mem_presentProperties hps).2 ⟨p, hp, v, hname ▸ hv, rfl⟩

theorem parts_match (h : Rearranged schema schema') (value : Subject) :
    Matches SamePart (parts value schema) (parts value schema') := by
  have hlooks : (unionBranches schema ≠ [] ∨ checkType value schema [] ≠ none) ↔
      (unionBranches schema' ≠ [] ∨ checkType value schema' [] ≠ none) := by
    rw [checkType_eq h, ne_eq, (branches_match h).nil_iff]
  have hsame : ∀ part, SamePart part part := fun part => ⟨rfl, rearranged_refl part.2⟩
  unfold parts
  by_cases hnot : unionBranches schema ≠ [] ∨ checkType value schema [] ≠ none
  · rw [if_pos hnot, if_pos (hlooks.1 hnot)]
    exact matches_refl hsame []
  rw [if_neg hnot, if_neg (fun h => hnot (hlooks.2 h))]
  cases value with
  | none => exact matches_refl hsame []
  | some v =>
      cases v with
      | obj fields =>
          dsimp only
          rw [readsObject_eq h]
          split
          · exact presentProperties_match h fields
          · exact matches_refl hsame []
      | arr xs =>
          dsimp only
          rcases h.items with heq | ⟨items, items', hitems, hitems', hsub⟩
          · rw [heq]
            exact matches_refl hsame _
          · rw [hitems, hitems', Option.filter_some, Option.filter_some, hsub.truthy]
            cases items'.truthy with
            | false => exact matches_refl hsame []
            | true =>
                rw [if_pos rfl, if_pos rfl]
                constructor
                · intro part hpart
                  obtain ⟨x, hx, rfl⟩ := List.mem_map.1 hpart
                  exact ⟨(some x, items'), List.mem_map_of_mem hx, rfl, hsub⟩
                · intro part hpart
                  obtain ⟨x, hx, rfl⟩ := List.mem_map.1 hpart
                  exact ⟨(some x, items), List.mem_map_of_mem hx, rfl, hsub⟩
      | null => exact matches_refl hsame []
      | bool b => exact matches_refl hsame []
      | num n => exact matches_refl hsame []
      | str s => exact matches_refl hsame []

/-! ### Verdicts in another order -/

theorem clean_rearranged {value : Subject} {schema schema' : Json} (h : Rearranged schema schema') :
    Clean value schema ↔ Clean value schema' := by
  induction hsize : schema.size using Nat.strongRecOn generalizing value schema schema' with
  | ind n ih =>
      have hparts : (∀ part ∈ parts value schema, Clean part.1 part.2) ↔
          ∀ part ∈ parts value schema', Clean part.1 part.2 := by
        refine (parts_match h value).forall_iff fun part hpart part' _ hsame => ?_
        rw [hsame.1]
        exact ih part.2.size (hsize ▸ size_part hpart) hsame.2 rfl
      have hbranches : (∃ b ∈ unionBranches schema, Clean value b) ↔
          ∃ b ∈ unionBranches schema', Clean value b := by
        refine (branches_match h).exists_iff fun b hb b' _ hsub => ?_
        exact ih b.size (hsize ▸ size_union hb) hsub rfl
      rw [clean_iff, clean_iff, hparts, hbranches, enumMissed_iff h, permitted_iff h,
        requiredMet_iff h, ne_eq, ne_eq, (branches_match h).nil_iff]

theorem hit_rearranged {value : Subject} {schema schema' : Json} (h : Rearranged schema schema') :
    Hit value schema ↔ Hit value schema' := by
  induction hsize : schema.size using Nat.strongRecOn generalizing value schema schema' with
  | ind n ih =>
      have hparts : (∃ part ∈ parts value schema, Hit part.1 part.2) ↔
          ∃ part ∈ parts value schema', Hit part.1 part.2 := by
        refine (parts_match h value).exists_iff fun part hpart part' _ hsame => ?_
        rw [hsame.1]
        exact ih part.2.size (hsize ▸ size_part hpart) hsame.2 rfl
      rw [hit_iff, hit_iff, hparts, enumMet_iff h]

theorem mayMiss_rearranged {value : Subject} {schema schema' : Json} (h : Rearranged schema schema') :
    MayMiss value schema ↔ MayMiss value schema' := by
  induction hsize : schema.size using Nat.strongRecOn generalizing value schema schema' with
  | ind n ih =>
      have hparts : (∃ part ∈ parts value schema, MayMiss part.1 part.2) ↔
          ∃ part ∈ parts value schema', MayMiss part.1 part.2 := by
        refine (parts_match h value).exists_iff fun part hpart part' _ hsame => ?_
        rw [hsame.1]
        exact ih part.2.size (hsize ▸ size_part hpart) hsame.2 rfl
      have hclean : (∃ b ∈ unionBranches schema, Clean value b) ↔
          ∃ b ∈ unionBranches schema', Clean value b :=
        (branches_match h).exists_iff fun b _ b' _ hsub => clean_rearranged hsub
      rw [mayMiss_iff, mayMiss_iff, hparts, hclean, enumMissed_iff h, ne_eq, ne_eq,
        (branches_match h).nil_iff]

theorem claimed_rearranged {value : Subject} {schema schema' : Json} (h : Rearranged schema schema') :
    Claimed value schema ↔ Claimed value schema' := by
  have hmiss : (∀ part ∈ parts value schema, ¬MayMiss part.1 part.2) ↔
      ∀ part ∈ parts value schema', ¬MayMiss part.1 part.2 := by
    refine (parts_match h value).forall_iff fun part _ part' _ hsame => ?_
    rw [hsame.1, mayMiss_rearranged hsame.2]
  have hmet : (∀ part ∈ parts value schema, Clean part.1 part.2 ∨ EnumMet part.1 part.2) ↔
      ∀ part ∈ parts value schema', Clean part.1 part.2 ∨ EnumMet part.1 part.2 := by
    refine (parts_match h value).forall_iff fun part _ part' _ hsame => ?_
    rw [hsame.1, clean_rearranged hsame.2, enumMet_iff hsame.2]
  unfold Claimed
  rw [hmiss, hmet, enumMissed_iff h, enumMet_iff h, hit_rearranged h]

/-- **What fits does not depend on the order.** -/
theorem meets_rearranged {value : Subject} {schema schema' : Json} (h : Rearranged schema schema') :
    Meets value schema ↔ Meets value schema' := by
  induction hsize : schema.size using Nat.strongRecOn generalizing value schema schema' with
  | ind n ih =>
      have hparts : (∀ part ∈ parts value schema, Meets part.1 part.2) ↔
          ∀ part ∈ parts value schema', Meets part.1 part.2 := by
        refine (parts_match h value).forall_iff fun part hpart part' _ hsame => ?_
        rw [hsame.1]
        exact ih part.2.size (hsize ▸ size_part hpart) hsame.2 rfl
      have hclean : (∃ b ∈ unionBranches schema, Clean value b) ↔
          ∃ b ∈ unionBranches schema', Clean value b :=
        (branches_match h).exists_iff fun b _ b' _ hsub => clean_rearranged hsub
      have hfits : (∃ b ∈ unionBranches schema, Meets value b) ↔
          ∃ b ∈ unionBranches schema', Meets value b :=
        (branches_match h).exists_iff fun b hb b' _ hsub =>
          ih b.size (hsize ▸ size_union hb) hsub rfl
      have hclaims : (∀ b ∈ unionBranches schema, Meets value b ∨ ¬Claimed value b) ↔
          ∀ b ∈ unionBranches schema', Meets value b ∨ ¬Claimed value b := by
        refine (branches_match h).forall_iff fun b hb b' _ hsub => ?_
        rw [ih b.size (hsize ▸ size_union hb) hsub rfl, claimed_rearranged hsub]
      rw [meets_iff, meets_iff, hparts, hclean, hfits, hclaims, permitted_iff h, requiredMet_iff h, ne_eq,
        ne_eq, (branches_match h).nil_iff]

theorem countable_rearranged {value : Subject} {schema schema' : Json} (h : Rearranged schema schema') :
    Countable value schema ↔ Countable value schema' := by
  induction hsize : schema.size using Nat.strongRecOn generalizing value schema schema' with
  | ind n ih =>
      have hparts : (∃ part ∈ parts value schema, Countable part.1 part.2 ∧
          (Meets part.1 part.2 → Clean part.1 part.2)) ↔
          ∃ part ∈ parts value schema', Countable part.1 part.2 ∧
            (Meets part.1 part.2 → Clean part.1 part.2) := by
        refine (parts_match h value).exists_iff fun part hpart part' _ hsame => ?_
        rw [hsame.1, ih part.2.size (hsize ▸ size_part hpart) hsame.2 rfl, meets_rearranged hsame.2,
          clean_rearranged hsame.2]
      rw [countable_iff, countable_iff, hparts, enumMissed_iff h, enumMet_iff h]

theorem unclaimed_rearranged {value : Subject} {schema schema' : Json} (h : Rearranged schema schema') :
    Unclaimed value schema ↔ Unclaimed value schema' := by
  have hdirty : (∃ part ∈ parts value schema, ¬Clean part.1 part.2) ↔
      ∃ part ∈ parts value schema', ¬Clean part.1 part.2 := by
    refine (parts_match h value).exists_iff fun part _ part' _ hsame => ?_
    rw [hsame.1, clean_rearranged hsame.2]
  have hmissed : (∀ part ∈ parts value schema, Meets part.1 part.2 ∨ EnumMissed part.1 part.2) ↔
      ∀ part ∈ parts value schema', Meets part.1 part.2 ∨ EnumMissed part.1 part.2 := by
    refine (parts_match h value).forall_iff fun part _ part' _ hsame => ?_
    rw [hsame.1, meets_rearranged hsame.2, enumMissed_iff hsame.2]
  unfold Unclaimed
  rw [hdirty, hmissed, countable_rearranged h]

theorem decided_rearranged {value : Subject} {schema schema' : Json} (h : Rearranged schema schema') :
    UnionDecided value (unionBranches schema) ↔ UnionDecided value (unionBranches schema') := by
  have hmatch := branches_match h
  have hnone : (∀ b ∈ unionBranches schema, ¬Meets value b) ↔
      ∀ b ∈ unionBranches schema', ¬Meets value b :=
    hmatch.forall_iff fun b _ b' _ hsub => not_congr (meets_rearranged hsub)
  have hsure : (∃ b ∈ unionBranches schema, Claimed value b ∧ ¬Meets value b) ↔
      ∃ b ∈ unionBranches schema', Claimed value b ∧ ¬Meets value b := by
    refine hmatch.exists_iff fun b _ b' _ hsub => ?_
    rw [claimed_rearranged hsub, meets_rearranged hsub]
  have hfail : (∀ b ∈ unionBranches schema, Meets value b ∨ Unclaimed value b) ↔
      ∀ b ∈ unionBranches schema', Meets value b ∨ Unclaimed value b := by
    refine hmatch.forall_iff fun b _ b' _ hsub => ?_
    rw [meets_rearranged hsub, unclaimed_rearranged hsub]
  unfold UnionDecided
  rw [hnone, hsure, hfail]

theorem readableAt_rearranged {value : Subject} {schema schema' : Json} (h : Rearranged schema schema') :
    ReadableAt value schema ↔ ReadableAt value schema' := by
  induction hsize : schema.size using Nat.strongRecOn generalizing value schema schema' with
  | ind n ih =>
      have hparts : (∀ part ∈ parts value schema, ReadableAt part.1 part.2) ↔
          ∀ part ∈ parts value schema', ReadableAt part.1 part.2 := by
        refine (parts_match h value).forall_iff fun part hpart part' _ hsame => ?_
        rw [hsame.1]
        exact ih part.2.size (hsize ▸ size_part hpart) hsame.2 rfl
      have hmeets : (∀ part ∈ parts value schema, Meets part.1 part.2) ↔
          ∀ part ∈ parts value schema', Meets part.1 part.2 := by
        refine (parts_match h value).forall_iff fun part _ part' _ hsame => ?_
        rw [hsame.1, meets_rearranged hsame.2]
      have hbranches : (∀ b ∈ unionBranches schema, ReadableAt value b) ↔
          ∀ b ∈ unionBranches schema', ReadableAt value b :=
        (branches_match h).forall_iff fun b hb b' _ hsub =>
          ih b.size (hsize ▸ size_union hb) hsub rfl
      rw [readableAt_iff, readableAt_iff, hparts, hmeets, hbranches, iterable_iff h, permitted_iff h,
        (branches_match h).nil_iff]

theorem orderly_rearranged {value : Subject} {schema schema' : Json} (h : Rearranged schema schema') :
    Orderly value schema ↔ Orderly value schema' := by
  induction hsize : schema.size using Nat.strongRecOn generalizing value schema schema' with
  | ind n ih =>
      have hparts : (∀ part ∈ parts value schema, Orderly part.1 part.2) ↔
          ∀ part ∈ parts value schema', Orderly part.1 part.2 := by
        refine (parts_match h value).forall_iff fun part hpart part' _ hsame => ?_
        rw [hsame.1]
        exact ih part.2.size (hsize ▸ size_part hpart) hsame.2 rfl
      have hbranches : (∀ b ∈ unionBranches schema, Orderly value b) ↔
          ∀ b ∈ unionBranches schema', Orderly value b :=
        (branches_match h).forall_iff fun b hb b' _ hsub =>
          ih b.size (hsize ▸ size_union hb) hsub rfl
      have hclean : (∃ b ∈ unionBranches schema, Clean value b) ↔
          ∃ b ∈ unionBranches schema', Clean value b :=
        (branches_match h).exists_iff fun b _ b' _ hsub => clean_rearranged hsub
      rw [orderly_iff, orderly_iff, hparts, hbranches, hclean, decided_rearranged h]

/-- A check that finds nothing. -/
def Checked.Good (o : Checked) : Prop := ∃ st, o = .ok (none, st)

theorem Orderly.good_iff {value : Subject} {schema : Json} (h : Orderly value schema)
    (hread : ReadableAt value schema) {n : ℕ} (hn : schema.size ≤ n) (path : JsString) :
    Checked.Good ((validateAt n false value schema path).run {}) ↔ Meets value schema := by
  obtain ⟨found, st, hrun, hfits, -⟩ := reports_validateAt hread h hn path
  rw [hrun, ← hfits]
  constructor
  · rintro ⟨st', heq⟩
    exact (Prod.mk.inj (Except.ok.inj heq)).1
  · rintro rfl
    exact ⟨st, rfl⟩

end

end VibeRouter
