import VibeRouter.Gateway.Orders

/-! # Unions of variants

A variant is a branch in which what a property counts before it fails does not depend on the order of its
own properties (`Steady`).  Any order of the parts of a value is the order of a rearranged variant
(`Variant.ordered`), so a value that fails a variant can be made to claim it, or not to, unless it does so
in every order or in none (`Variant.loud`, `Variant.quiet`).
Hence a union of variants that is not orderly passes the value in one order and not in another one
(`FlatUnion.varies`). -/

namespace VibeRouter

/-! ### Another value of a keyword -/

/-- The schema with another value of a keyword that it has. -/
def setField (name : String) (w : Json) : Json → Json
  | .obj es => .obj (es.map fun e => if e.1 = js name then (e.1, w) else e)
  | v => v

theorem lookup_setField (key : JsString) (w : Json) (other : JsString) (es : List (JsString × Json)) :
    (es.map fun e => if e.1 = key then (e.1, w) else e).lookup other =
      (es.lookup other).map fun v => if other = key then w else v := by
  induction es with
  | nil => rfl
  | cons e es ih =>
      obtain ⟨k, v⟩ := e
      rw [List.map_cons]
      by_cases hk : k = key
      · rw [if_pos hk, List.lookup_cons, List.lookup_cons, ih]
        by_cases ho : other = k
        · rw [beq_iff_eq.2 ho]
          dsimp only
          rw [Option.map_some, if_pos (ho.trans hk)]
        · rw [beq_eq_false_iff_ne.2 ho]
      · rw [if_neg hk, List.lookup_cons, List.lookup_cons, ih]
        by_cases ho : other = k
        · rw [beq_iff_eq.2 ho]
          dsimp only
          rw [Option.map_some, if_neg (fun h => hk (ho.symm.trans h))]
        · rw [beq_eq_false_iff_ne.2 ho]

theorem field_setField (name : String) (w schema : Json) (other : String) :
    (setField name w schema).field other =
      (schema.field other).map fun v => if js other = js name then w else v := by
  cases schema with
  | obj es => exact lookup_setField (js name) w (js other) es
  | _ => rfl

theorem field_setField_self {name : String} {v schema : Json} (h : schema.field name = some v) (w : Json) :
    (setField name w schema).field name = some w := by
  rw [field_setField, h, Option.map_some, if_pos rfl]

theorem field_setField_ne {name other : String} (hne : js other ≠ js name) (w schema : Json) :
    (setField name w schema).field other = schema.field other := by
  rw [field_setField]
  simp [hne]

/-- Only a keyword with schemas below it is set. -/
theorem field_setField_nesting {name : String} (hname : js name ∈ NESTING) {other : String}
    (hother : js other ∉ NESTING) (w schema : Json) :
    schema.field other = (setField name w schema).field other := by
  have hne : js other ≠ js name := fun h => hother (h.symm ▸ hname)
  exact (field_setField_ne hne w schema).symm

theorem obj_of_field {schema v : Json} {name : String} (h : schema.field name = some v) :
    ∃ es, schema = .obj es := by
  cases schema with
  | obj es => exact ⟨es, rfl⟩
  | _ => cases h

/-- A union stands under a keyword of its own. -/
theorem union_nesting : ∀ key ∈ UNIONS,
    js key ∈ NESTING ∧ js key ≠ js "properties" ∧ js key ≠ js "items" := by
  decide

/-- The properties in another order, and each of them. -/
theorem rearranged_properties {schema : Json} {ps qs rs : List (JsString × Json)}
    (h : schema.field "properties" = some (.obj ps))
    (hall : List.Forall₂ (fun p q => p.1 = q.1 ∧ Rearranged p.2 q.2) ps qs) (hperm : qs.Perm rs) :
    Rearranged schema (setField "properties" (.obj rs) schema) := by
  obtain ⟨es, rfl⟩ := obj_of_field h
  have hnames : ps.map Prod.fst = qs.map Prod.fst := by
    rw [← List.forall₂_eq_eq_eq, List.forall₂_map_left_iff, List.forall₂_map_right_iff]
    exact hall.imp fun p q hpq => hpq.1
  rw [Rearranged]
  refine Or.inr ⟨⟨_, rfl⟩, ⟨_, rfl⟩, fun name hname => ?_, Or.inr ?_, Or.inl ?_, fun key hkey => Or.inl ?_⟩
  · exact field_setField_nesting (by decide) hname _ _
  · exact ⟨ps, rs, qs, h, field_setField_self h _, hperm, hnames,
      fun pq hpq => ((List.forall₂_iff_zip.1 hall).2 hpq).2⟩
  · exact (field_setField_ne (by decide) _ _).symm
  · exact (field_setField_ne (union_nesting key hkey).2.1 _ _).symm

/-- The schema of the items in another order. -/
theorem rearranged_items {schema items items' : Json} (h : schema.field "items" = some items)
    (hitems : Rearranged items items') : Rearranged schema (setField "items" items' schema) := by
  obtain ⟨es, rfl⟩ := obj_of_field h
  rw [Rearranged]
  refine Or.inr ⟨⟨_, rfl⟩, ⟨_, rfl⟩, fun name hname => ?_, Or.inl ?_, Or.inr ?_, fun key hkey => Or.inl ?_⟩
  · exact field_setField_nesting (by decide) hname _ _
  · exact (field_setField_ne (by decide) _ _).symm
  · exact ⟨items, items', h, field_setField_self h _, hitems⟩
  · exact (field_setField_ne (union_nesting key hkey).2.2 _ _).symm

/-- Each branch of a union in another order. -/
theorem rearranged_branches {schema : Json} {key : String} (hkey : key ∈ UNIONS) {bs cs : List Json}
    (h : schema.field key = some (.arr bs)) (hall : List.Forall₂ Rearranged bs cs) :
    Rearranged schema (setField key (.arr cs) schema) := by
  obtain ⟨es, rfl⟩ := obj_of_field h
  obtain ⟨hnesting, hproperties, hitems⟩ := union_nesting key hkey
  have hother : ∀ name : String, js name ≠ js key → Json.field name (.obj es) =
      (setField key (.arr cs) (.obj es)).field name :=
    fun name hne => (field_setField_ne hne _ _).symm
  rw [Rearranged]
  refine Or.inr ⟨⟨_, rfl⟩, ⟨_, rfl⟩, fun name hname => ?_, Or.inl (hother _ hproperties.symm),
    Or.inl (hother _ hitems.symm), fun key' hkey' => ?_⟩
  · exact field_setField_nesting hnesting hname _ _
  · by_cases heq : js key' = js key
    · have hfield : Json.field key' (.obj es) = some (.arr bs) := by
        unfold Json.field at h ⊢
        rw [heq]
        exact h
      have hfield' : (setField key (.arr cs) (.obj es)).field key' = some (.arr cs) := by
        rw [field_setField, hfield, Option.map_some, if_pos heq]
      refine Or.inr ⟨bs, cs, cs, hfield, hfield', List.Perm.refl cs, hall.length_eq, fun bc hbc => ?_⟩
      exact (List.forall₂_iff_zip.1 hall).2 hbc
    · exact Or.inl (hother _ heq)

/-- The keyword that a union stands under. -/
def unionKey (schema : Json) : String :=
  match schema.field "anyOf" with
  | none | some .null => "oneOf"
  | some _ => "anyOf"

theorem unionKey_mem (schema : Json) : unionKey schema ∈ UNIONS := by
  unfold unionKey
  split <;> decide

theorem unionBranches_eq (schema : Json) :
    unionBranches schema = match schema.field (unionKey schema) with
      | some (.arr bs) => bs
      | _ => [] := by
  unfold unionBranches unionKey
  cases hany : schema.field "anyOf" with
  | none => rfl
  | some v =>
      cases v with
      | null => rfl
      | _ => simp only [hany]

/-- It stays where it is when its branches change. -/
theorem unionKey_setField {schema v : Json} (h : schema.field (unionKey schema) = some v)
    (cs : List Json) : unionKey (setField (unionKey schema) (.arr cs) schema) = unionKey schema := by
  unfold unionKey at h ⊢
  cases hany : schema.field "anyOf" with
  | none => rw [field_setField_ne (by decide), hany]
  | some w =>
      rw [hany] at h
      cases w with
      | null => rw [field_setField_ne (by decide), hany]
      | _ => rw [field_setField_self hany]

theorem unionBranches_setField {schema : Json} (h : unionBranches schema ≠ []) :
    schema.field (unionKey schema) = some (.arr (unionBranches schema)) ∧
      ∀ cs, unionBranches (setField (unionKey schema) (.arr cs) schema) = cs := by
  have hfield : schema.field (unionKey schema) = some (.arr (unionBranches schema)) := by
    rw [unionBranches_eq] at h ⊢
    split at h
    · next bs hbs => rw [hbs]
    · exact absurd rfl h
  refine ⟨hfield, fun cs => ?_⟩
  rw [unionBranches_eq, unionKey_setField hfield, field_setField_self hfield]

/-! ### Variants -/

/-- What is left of a list can be put into any order. -/
theorem exists_perm_filterMap {α β : Type} {f : α → Option β} {ys zs : List β} (hperm : ys.Perm zs) :
    ∀ xs : List α, xs.filterMap f = ys → ∃ xs', xs.Perm xs' ∧ xs'.filterMap f = zs := by
  induction hperm with
  | nil => exact fun xs h => ⟨xs, List.Perm.refl xs, h⟩
  | cons y _ ih =>
      intro xs h
      obtain ⟨pre, x, post, rfl, hpre, hx, hpost⟩ := List.filterMap_eq_cons_iff.1 h
      obtain ⟨post', hperm', hpost'⟩ := ih post hpost
      refine ⟨pre ++ x :: post', (hperm'.cons x).append_left pre, ?_⟩
      rw [List.filterMap_append, List.filterMap_cons, hx, hpost', List.filterMap_eq_nil_iff.2 hpre]
      rfl
  | swap y z ys =>
      intro xs h
      obtain ⟨pre, x, post, rfl, hpre, hx, hpost⟩ := List.filterMap_eq_cons_iff.1 h
      obtain ⟨pre', x', post', rfl, hpre', hx', hpost'⟩ := List.filterMap_eq_cons_iff.1 hpost
      refine ⟨pre ++ x' :: x :: (pre' ++ post'), List.Perm.append_left pre ?_, ?_⟩
      · have hmiddle : (x :: (pre' ++ x' :: post')).Perm (x :: x' :: (pre' ++ post')) :=
          List.perm_middle.cons x
        exact hmiddle.trans (List.Perm.swap x' x _)
      · rw [List.filterMap_append, List.filterMap_cons, hx', List.filterMap_cons, hx,
          List.filterMap_append, hpost', List.filterMap_eq_nil_iff.2 hpre,
          List.filterMap_eq_nil_iff.2 hpre']
        rfl
  | trans _ _ ih ih' =>
      intro xs h
      obtain ⟨xs', hperm', h'⟩ := ih xs h
      obtain ⟨xs'', hperm'', h''⟩ := ih' xs' h'
      exact ⟨xs'', hperm'.trans hperm'', h''⟩

section
variable [Platform] {value : Subject} {branch : Json}

/-- What is collected of a value that fails is the same in every order: it misses its own `enum`, or no
`enum` may be missed and none but its own is satisfied. -/
def Steady (value : Subject) (schema : Json) : Prop :=
  EnumMissed value schema ∨ (¬MayMiss value schema ∧ (Hit value schema → EnumMet value schema))

/-- A branch of which the properties that do not fit are steady, and in whose parts all is orderly.  No
property has a number as its name: these an object lists first, in whatever order they are written. -/
structure Variant (value : Subject) (branch : Json) : Prop where
  union : unionBranches branch = []
  array : ∀ xs, value = some (.arr xs) → parts value branch = []
  properties : ∀ v, branch.field "properties" = some v → ∃ ps, v = .obj ps ∧
    ∀ p ∈ ps, p.1.all JsString.isDigit = false
  orderlyParts : ∀ part ∈ parts value branch, Orderly part.1 part.2
  steadyParts : ∀ part ∈ parts value branch, Meets part.1 part.2 ∨ Steady part.1 part.2

/-- A union of variants. -/
def FlatUnion (value : Subject) (schema : Json) : Prop :=
  unionBranches schema ≠ [] ∧ ∀ b ∈ unionBranches schema, Variant value b

theorem orderly_parts (hunion : unionBranches branch = [])
    (hparts : ∀ part ∈ parts value branch, Orderly part.1 part.2) : Orderly value branch := by
  rw [orderly_iff, hunion]
  exact ⟨hparts, Or.inr ⟨fun b h => (by cases h), Or.inl fun b h => by cases h⟩⟩

theorem Variant.orderly (h : Variant value branch) : Orderly value branch :=
  orderly_parts h.union h.orderlyParts

/-- The parts of an object are its properties. -/
theorem parts_obj {fields ps : List (JsString × Json)} (hunion : unionBranches branch = [])
    (htype : TypePermitted (some (.obj fields)) branch)
    (hps : branch.field "properties" = some (.obj ps)) :
    parts (some (.obj fields)) branch =
      ps.filterMap fun p => (property fields p.1).map fun v => (v, p.2) := by
  have hlooks : ¬(unionBranches branch ≠ [] ∨ checkType (some (.obj fields)) branch [] ≠ none) := by
    rw [not_or, not_not, not_not]
    exact ⟨hunion, (checkType_verdict _ _ _).2 htype⟩
  have hreads : readsObject branch = true := by
    unfold readsObject
    rw [hps]
    rfl
  unfold parts presentProperties
  rw [if_neg hlooks]
  dsimp only
  rw [if_pos hreads, hps]
  show (ps.filterMap _).map Prod.snd = _
  rw [List.map_filterMap]
  simp only [Option.map_map, Function.comp_def]

/-- The keyword that the parts of a value stand under. -/
theorem parts_keyword {part : Subject × Json} (hpart : part ∈ parts value branch) :
    (∃ fields v, value = some (.obj fields) ∧ branch.field "properties" = some v) ∨
    ∃ xs items, value = some (.arr xs) ∧ branch.field "items" = some items ∧ items.truthy = true := by
  unfold parts at hpart
  split at hpart
  · cases hpart
  split at hpart
  · next fields _ =>
    split at hpart
    · unfold presentProperties at hpart
      cases hfield : branch.field "properties" with
      | none =>
          rw [hfield] at hpart
          cases hpart
      | some v => exact Or.inl ⟨fields, v, rfl, rfl⟩
    · cases hpart
  · next xs _ =>
    split at hpart
    · next items hitems =>
      obtain ⟨hfield, htruthy⟩ := Option.filter_eq_some_iff.1 hitems
      exact Or.inr ⟨xs, items, rfl, hfield, htruthy⟩
    · cases hpart
  · cases hpart

/-- Any order of the parts is the order of a rearranged variant. -/
theorem Variant.ordered (h : Variant value branch) {qs : List (Subject × Json)}
    (hperm : (parts value branch).Perm qs) (hne : qs ≠ []) :
    ∃ branch', Rearranged branch branch' ∧ parts value branch' = qs := by
  obtain ⟨part, hpart⟩ := List.exists_mem_of_ne_nil qs hne
  have hmem : part ∈ parts value branch := hperm.mem_iff.2 hpart
  have htype : TypePermitted value branch := by
    by_contra htype
    rw [parts_of_type htype] at hmem
    cases hmem
  obtain ⟨fields, v, rfl, hfield⟩ := (parts_keyword hmem).resolve_right fun harray => by
    obtain ⟨xs, items, heq, -⟩ := harray
    rw [h.array xs heq] at hmem
    cases hmem
  obtain ⟨ps, rfl, -⟩ := h.properties v hfield
  have hunion := h.union
  rw [parts_obj hunion htype hfield] at hperm
  obtain ⟨ps', hperm', hps'⟩ := exists_perm_filterMap hperm ps rfl
  have hrearranged := rearranged_properties hfield
    (List.forall₂_same.2 fun p _ => ⟨rfl, rearranged_refl p.2⟩) hperm'
  refine ⟨_, hrearranged, ?_⟩
  rw [parts_obj ((branches_match hrearranged).nil_iff.1 hunion) ((permitted_iff hrearranged).1 htype)
    (field_setField_self hfield _)]
  exact hps'

/-! ### The first parts -/

omit [Platform] in
theorem Checked.after_empty (o : Checked) : Checked.after {} o = o := by
  cases o with
  | error m => rfl
  | ok r =>
      obtain ⟨found, soft, hits⟩ := r
      simp [Checked.after, SchemaState.after, Except.map]

omit [Platform] in
theorem Checked.andThen_assoc (o o' o'' : Checked) :
    Checked.andThen (Checked.andThen o o') o'' = Checked.andThen o (Checked.andThen o' o'') := by
  cases o with
  | error m => rfl
  | ok r =>
      obtain ⟨found, st⟩ := r
      cases found with
      | some bad => rfl
      | none =>
          cases o' with
          | error m => rfl
          | ok r' =>
              obtain ⟨found', st'⟩ := r'
              cases found' with
              | some bad => rfl
              | none =>
                  cases o'' with
                  | error m => rfl
                  | ok r'' => simp [Checked.andThen, Checked.after, Except.map, SchemaState.after_assoc]

omit [Platform] in
theorem run_firstBad {ι : Type} {is : List ι} {c : ι → Check} (hadds : ∀ i ∈ is, Adds (c i))
    (o : Checked) : Checked.andThen ((firstBad (is.map c)).run {}) o =
      (is.map fun i => (c i).run {}).foldr Checked.andThen o := by
  induction is with
  | nil => exact Checked.after_empty o
  | cons i is ih =>
      obtain ⟨-, haddsRest⟩ := List.forall_mem_cons.1 hadds
      have hrest : Adds (firstBad (is.map c)) := adds_firstBad fun d hd => by
        obtain ⟨j, hj, rfl⟩ := List.mem_map.1 hd
        exact haddsRest j hj
      rw [List.map_cons, firstBad_cons, run_andThen hrest, Checked.andThen_assoc, ih haddsRest]
      rfl

/-- A value with parts is checked for the `enum`, then part by part, and then for `required`. -/
theorem run_parts (hne : parts value branch ≠ []) (n : ℕ) (path : JsString) :
    ∃ located : List ((Subject × Json) × JsString), ∃ required,
      located.map Prod.fst = parts value branch ∧
      (validateAt (n + 1) false value branch path).run {} =
        Checked.andThen ((checkEnum false value branch path).run {})
          ((located.map fun l => (validateAt n false l.1.1 l.1.2 l.2).run {}).foldr
            Checked.andThen required) := by
  have hunion : unionBranches branch = [] := by
    by_contra hunion
    exact hne (parts_of_union hunion)
  have hpermitted : TypePermitted value branch := by
    by_contra htype
    exact hne (parts_of_type htype)
  obtain ⟨located, hlocated, hcheck⟩ := checkNested_parts hunion
    ((checkType_verdict value branch []).2 hpermitted) path
  have hnested := adds_checkNested n false value branch path
  refine ⟨located, (requiredCheck value branch path).run {}, hlocated, ?_⟩
  rw [validateAt_succ, if_neg (not_not.2 hunion), run_andThen ((adds_pure _).andThen hnested),
    run_andThen hnested, (checkType_verdict value branch path).2 hpermitted, hcheck,
    run_andThen (adds_requiredCheck value branch path),
    run_firstBad fun l _ => adds_validateAt n false _ _ _]
  exact congrArg _ (Checked.after_empty _)

/-- The outcome for a part of a variant: everything has been collected, whether it is good or bad. -/
def PartReports (o : Checked) (value : Subject) (schema : Json) : Prop :=
  ∃ found st, o = .ok (found, st) ∧ (found = none ↔ Meets value schema) ∧
    (st.soft = [] ↔ ¬MayMiss value schema) ∧ (st.soft = [] → (0 < st.hits ↔ Hit value schema))

theorem part_reports {schema : Json} (hread : ReadableAt value schema) (horderly : Orderly value schema)
    (hpart : Meets value schema ∨ Steady value schema) {n : ℕ} (hn : schema.size ≤ n) (path : JsString) :
    PartReports ((validateAt n false value schema path).run {}) value schema := by
  obtain ⟨found, st, hrun, hfits, hhits, hgood, -⟩ := reports_validateAt hread horderly hn path
  refine ⟨found, st, hrun, hfits, ?_⟩
  have hmissed : EnumMissed value schema → st.soft ≠ [] := fun hmissed => soft_of_missed hn hmissed hrun
  cases found with
  | none =>
      obtain ⟨hsoft, hcount⟩ := hgood rfl
      have hmeets := hfits.1 rfl
      exact ⟨hsoft.trans ⟨Clean.not_mayMiss, hmeets.clean⟩,
        fun hs => ⟨fun hpos => (hhits hs hpos).hit, hcount hs⟩⟩
  | some bad =>
      have hsteady := hpart.resolve_left fun hmeets => by cases hfits.2 hmeets
      constructor
      · refine ⟨fun hs => (hsteady.resolve_left fun h => hmissed h hs).1, fun hmiss => ?_⟩
        exact spotless_validateAt hread hn hmiss path _ _ hrun
      · intro hs
        refine ⟨fun hpos => (hhits hs hpos).hit, fun hhit => ?_⟩
        exact hits_of_met hn ((hsteady.resolve_left fun h => hmissed h hs).2 hhit) hrun

/-- The outcome of the `enum` of the schema itself. -/
theorem enum_outcome (value : Subject) (schema : Json) (path : JsString) :
    ∃ root, (checkEnum false value schema path).run {} = .ok (none, root) ∧
      (root.soft = [] ↔ ¬EnumMissed value schema) ∧
      (root.soft = [] → (0 < root.hits ↔ EnumMet value schema)) := by
  obtain ⟨found, root, hrun, henum, hhits, hcounted⟩ := collects_enum value schema path
  obtain rfl : found = none := henum.2 trivial
  obtain ⟨hsoft, hcount⟩ := hcounted trivial
  exact ⟨root, hrun, hsoft, fun hs => ⟨hhits hs, hcount hs⟩⟩

/-- The parts of a variant can be checked in any order. -/
theorem Variant.run_ordered (h : Variant value branch) (hread : ReadableAt value branch)
    {qs : List (Subject × Json)} (hperm : (parts value branch).Perm qs) (hne : qs ≠ []) :
    ∃ branch', Rearranged branch branch' ∧ ∀ n path, branch'.size ≤ n →
      ∃ root outcomes required, (validateAt n false value branch' path).run {} =
          Checked.andThen (.ok (none, root)) (outcomes.foldr Checked.andThen required) ∧
        (root.soft = [] ↔ ¬EnumMissed value branch) ∧
        (root.soft = [] → (0 < root.hits ↔ EnumMet value branch)) ∧
        List.Forall₂ (fun o part => PartReports o part.1 part.2) outcomes qs := by
  obtain ⟨branch', hrearranged, hparts⟩ := h.ordered hperm hne
  refine ⟨branch', hrearranged, fun n path hn => ?_⟩
  have hpos := Json.size_pos branch'
  obtain ⟨n, rfl⟩ : ∃ m, n = m + 1 := ⟨n - 1, by omega⟩
  obtain ⟨located, required, hlocated, hrun⟩ := run_parts (by rwa [hparts]) n path
  obtain ⟨root, hroot, hsoft, hhits⟩ := enum_outcome value branch' path
  rw [hroot] at hrun
  rw [enumMissed_iff hrearranged, enumMet_iff hrearranged]
  refine ⟨root, _, required, hrun, hsoft, hhits, ?_⟩
  rw [← hparts, ← hlocated, List.forall₂_map_left_iff, List.forall₂_map_right_iff, List.forall₂_same]
  intro l hl
  have hmem' : l.1 ∈ parts value branch' := hlocated ▸ List.mem_map_of_mem hl
  have hmem : l.1 ∈ parts value branch := hperm.mem_iff.2 (hparts ▸ hmem')
  have hsize := size_part hmem'
  have hreadPart := (readableAt_iff.1 hread).2.1 l.1 hmem
  exact part_reports hreadPart (h.orderlyParts l.1 hmem) (h.steadyParts l.1 hmem) (by omega) l.2

/-- Any part can be the first. -/
theorem Variant.run_first (h : Variant value branch) (hread : ReadableAt value branch)
    {part : Subject × Json} (hpart : part ∈ parts value branch) :
    ∃ branch', Rearranged branch branch' ∧ ∀ n path, branch'.size ≤ n →
      ∃ root found st o, (validateAt n false value branch' path).run {} =
          Checked.andThen (.ok (none, root)) (Checked.andThen (.ok (found, st)) o) ∧
        (root.soft = [] ↔ ¬EnumMissed value branch) ∧
        (root.soft = [] → (0 < root.hits ↔ EnumMet value branch)) ∧
        (found = none ↔ Meets part.1 part.2) ∧ (st.soft = [] ↔ ¬MayMiss part.1 part.2) ∧
        (st.soft = [] → (0 < st.hits ↔ Hit part.1 part.2)) := by
  obtain ⟨pre, post, hparts⟩ := List.append_of_mem hpart
  obtain ⟨branch', hrearranged, hrun⟩ :=
    h.run_ordered hread (hparts ▸ List.perm_middle) (List.cons_ne_nil part (pre ++ post))
  refine ⟨branch', hrearranged, fun n path hn => ?_⟩
  obtain ⟨root, outcomes, required, heq, hsoft, hhits, hall⟩ := hrun n path hn
  obtain ⟨-, rest, ⟨found, st, rfl, hpartRun⟩, -, rfl⟩ := List.forall₂_cons_right_iff.1 hall
  exact ⟨root, found, st, _, heq, hsoft, hhits, hpartRun⟩

/-! ### A value that claims a variant or not -/

omit [Platform] in
/-- What passes leaves the verdict to what follows. -/
theorem authoritative_after {root : SchemaState} {o : Checked} :
    Authoritative (Checked.andThen (.ok (none, root)) o) ↔
      root.soft = [] ∧ ∃ bad st, o = .ok (some bad, st) ∧ 0 < root.hits + st.hits ∧ st.soft = [] := by
  unfold Authoritative
  cases o with
  | error m =>
      constructor
      · rintro ⟨bad, st, heq, -⟩
        cases heq
      · rintro ⟨-, bad, st, heq, -⟩
        cases heq
  | ok r =>
      obtain ⟨found, st⟩ := r
      constructor
      · rintro ⟨bad, st', heq, hpos, hsoft⟩
        cases heq
        obtain ⟨hroot, hst⟩ := List.append_eq_nil_iff.1 hsoft
        exact ⟨hroot, bad, st, rfl, hpos, hst⟩
      · rintro ⟨hroot, bad, st', heq, hpos, hst⟩
        cases heq
        exact ⟨bad, root.after st, rfl, hpos, List.append_eq_nil_iff.2 ⟨hroot, hst⟩⟩

omit [Platform] in
/-- A violation ends a check, with what has been collected until then. -/
theorem andThen_bad {bad bad' : SchemaViolation} {st st' : SchemaState} {o : Checked} :
    Checked.andThen (.ok (some bad, st)) o = .ok (some bad', st') ↔ bad = bad' ∧ st = st' := by
  constructor
  · intro h
    cases h
    exact ⟨rfl, rfl⟩
  · rintro ⟨rfl, rfl⟩
    rfl

omit [Platform] in
/-- A miss stays, whatever follows. -/
theorem soft_andThen {found : Option SchemaViolation} {st : SchemaState} {o : Checked} (h : st.soft ≠ [])
    {found' : Option SchemaViolation} {st' : SchemaState}
    (hrun : Checked.andThen (.ok (found, st)) o = .ok (found', st')) : st'.soft ≠ [] := by
  cases found with
  | some bad =>
      cases hrun
      exact h
  | none =>
      cases o with
      | error m => cases hrun
      | ok r =>
          cases hrun
          exact List.append_ne_nil_of_left_ne_nil h _

section
variable (h : Variant value branch) (hread : ReadableAt value branch) (hnot : ¬Meets value branch)
include h hread hnot

/-- The outcome of a variant that the value claims in every order, or in none. -/
theorem Variant.authoritative {n : ℕ} (hn : branch.size ≤ n) (path : JsString) :
    (Claimed value branch → Authoritative ((validateAt n false value branch path).run {})) ∧
    (Unclaimed value branch → ¬Authoritative ((validateAt n false value branch path).run {})) := by
  have hpos := Json.size_pos branch
  obtain ⟨n, rfl⟩ : ∃ m, n = m + 1 := ⟨n - 1, by omega⟩
  refine authoritative_validateAt hread hn (reports_validateAt hread h.orderly hn path)
    (fun part hpart path' => ?_) hnot
  have := size_part hpart
  exact reports_validateAt ((readableAt_iff.1 hread).2.1 part hpart) (h.orderlyParts part hpart)
    (by omega) path'

/-- A variant that the value does not claim in every order is not authoritative in some order. -/
theorem Variant.quiet (hclaim : ¬Claimed value branch) : ∃ branch', Rearranged branch branch' ∧
    ∀ n path, branch'.size ≤ n → ¬Authoritative ((validateAt n false value branch' path).run {}) := by
  by_cases hself : Unclaimed value branch
  · exact ⟨branch, rearranged_refl _, fun n path hn => (h.authoritative hread hnot hn path).2 hself⟩
  have hcountable : Countable value branch := by
    by_contra hnone
    exact hself (Or.inl hnone)
  have hmet : ¬EnumMissed value branch := (countable_iff.1 hcountable).1
  by_cases hmiss : ∃ part ∈ parts value branch, MayMiss part.1 part.2
  · -- a part that misses its `enum` is checked first
    obtain ⟨part, hpart, hmissed⟩ := hmiss
    obtain ⟨branch', hrearranged, hrun⟩ := h.run_first hread hpart
    refine ⟨branch', hrearranged, fun n path hn => ?_⟩
    obtain ⟨root, found, st, o, heq, -, -, -, hsoft, -⟩ := hrun n path hn
    have hst : st.soft ≠ [] := fun hs => hsoft.1 hs hmissed
    rw [heq, authoritative_after]
    rintro ⟨-, bad, st', hbad, -, hst'⟩
    exact soft_andThen hst hbad hst'
  · -- a part that fails without having satisfied its `enum` is checked first
    have hclean : ∀ part ∈ parts value branch, ¬MayMiss part.1 part.2 :=
      fun part hpart hmissed => hmiss ⟨part, hpart, hmissed⟩
    obtain ⟨hroot, hall⟩ := not_or.1 fun hroot => hclaim ⟨hmet, hclean, hcountable.hit, hroot⟩
    obtain ⟨part, hpart, hpartNot⟩ : ∃ part ∈ parts value branch,
        ¬(Clean part.1 part.2 ∨ EnumMet part.1 part.2) := by
      simpa only [not_forall, exists_prop] using hall
    obtain ⟨hdirty, hunmet⟩ := not_or.1 hpartNot
    obtain ⟨branch', hrearranged, hrun⟩ := h.run_first hread hpart
    refine ⟨branch', hrearranged, fun n path hn => ?_⟩
    obtain ⟨root, found, st, o, heq, -, hrootHits, hfits, -, hhits⟩ := hrun n path hn
    have hfails : ¬Meets part.1 part.2 := fun hmeets => hdirty (hmeets.clean (hclean part hpart))
    have hsteady := (h.steadyParts part hpart).resolve_left hfails
    have hown := (hsteady.resolve_left fun hmissed => hclean part hpart (mayMiss_iff.2 (Or.inl hmissed))).2
    obtain ⟨bad, rfl⟩ := Option.ne_none_iff_exists'.1 fun heq => hfails (hfits.1 heq)
    rw [heq, authoritative_after]
    rintro ⟨hrootSoft, bad', st', hbad, hpos, hst⟩
    obtain ⟨rfl, rfl⟩ := andThen_bad.1 hbad
    have hrootZero : ¬0 < root.hits := fun hpos => hroot ((hrootHits hrootSoft).1 hpos)
    have hzero : ¬0 < st.hits := fun hpos => hunmet (hown ((hhits hst).1 hpos))
    omega

/-- A variant that the value claims in some order is authoritative in some order. -/
theorem Variant.loud (hclaim : ¬Unclaimed value branch) : ∃ branch', Rearranged branch branch' ∧
    ∀ n path, branch'.size ≤ n → Authoritative ((validateAt n false value branch' path).run {}) := by
  by_cases hself : Claimed value branch
  · exact ⟨branch, rearranged_refl _, fun n path hn => (h.authoritative hread hnot hn path).1 hself⟩
  obtain ⟨hcountable, hrest⟩ := not_or.1 hclaim
  rw [not_not] at hcountable
  obtain ⟨hmet, hcounted⟩ := countable_iff.1 hcountable
  have hdirty : ∃ part ∈ parts value branch, ¬Clean part.1 part.2 := by
    by_contra hall
    have hclean : ∀ part ∈ parts value branch, Clean part.1 part.2 := by
      simpa only [not_exists, not_and, not_not] using hall
    exact hself ⟨hmet, fun part hpart => (hclean part hpart).not_mayMiss, hcountable.hit,
      Or.inr fun part hpart => Or.inl (hclean part hpart)⟩
  have hsome : ¬∀ part ∈ parts value branch, Meets part.1 part.2 ∨ EnumMissed part.1 part.2 :=
    fun hall => hrest ⟨hdirty, hall⟩
  obtain ⟨part, hpart, hpartNot⟩ : ∃ part ∈ parts value branch,
      ¬(Meets part.1 part.2 ∨ EnumMissed part.1 part.2) := by
    simpa only [not_forall, exists_prop] using hsome
  obtain ⟨hfails, hpartMet⟩ := not_or.1 hpartNot
  have hpartSoft : ¬MayMiss part.1 part.2 :=
    (((h.steadyParts part hpart).resolve_left hfails).resolve_left hpartMet).1
  rcases hcounted with hroot | ⟨first, hfirst, hfirstCountable, hfirstClean⟩
  · -- the value satisfies the `enum` of the variant, and the part that fails is checked first
    obtain ⟨branch', hrearranged, hrun⟩ := h.run_first hread hpart
    refine ⟨branch', hrearranged, fun n path hn => ?_⟩
    obtain ⟨root, found, st, o, heq, hrootSoft, hrootHits, hfits, hsoft, -⟩ := hrun n path hn
    obtain ⟨bad, rfl⟩ := Option.ne_none_iff_exists'.1 fun heq => hfails (hfits.1 heq)
    have hroot := (hrootHits (hrootSoft.2 hmet)).2 hroot
    rw [heq, authoritative_after]
    exact ⟨hrootSoft.2 hmet, bad, st, rfl, by omega, hsoft.2 hpartSoft⟩
  have hfirstHit := hfirstCountable.hit
  by_cases hpasses : Meets first.1 first.2
  · -- a part that passes satisfies its `enum`: it is checked first, and then the one that fails
    obtain ⟨pre, post, hparts⟩ := List.append_of_mem hfirst
    have hperm : (parts value branch).Perm (first :: (pre ++ post)) := hparts ▸ List.perm_middle
    have hne : part ≠ first := fun heq => hfails (heq ▸ hpasses)
    obtain ⟨pre', post', hothers⟩ := List.append_of_mem
      ((List.mem_cons.1 (hperm.mem_iff.1 hpart)).resolve_left hne)
    rw [hothers] at hperm
    obtain ⟨branch', hrearranged, hrun⟩ := h.run_ordered hread
      (hperm.trans (List.perm_middle.cons first)) (List.cons_ne_nil first (part :: (pre' ++ post')))
    refine ⟨branch', hrearranged, fun n path hn => ?_⟩
    obtain ⟨root, outcomes, required, heq, hrootSoft, -, hall⟩ := hrun n path hn
    obtain ⟨-, others, ⟨found, st, rfl, hfits, hsoft, hhits⟩, hothers, rfl⟩ :=
      List.forall₂_cons_right_iff.1 hall
    obtain ⟨-, rest, ⟨found', st', rfl, hfits', hsoft', -⟩, -, rfl⟩ :=
      List.forall₂_cons_right_iff.1 hothers
    obtain rfl : found = none := hfits.2 hpasses
    obtain ⟨bad, rfl⟩ := Option.ne_none_iff_exists'.1 fun heq => hfails (hfits'.1 heq)
    have hs := hsoft.2 (hfirstClean hpasses).not_mayMiss
    have hpos := (hhits hs).2 hfirstHit
    have hafter : (st.after st').soft = [] := List.append_eq_nil_iff.2 ⟨hs, hsoft'.2 hpartSoft⟩
    have hsum : (st.after st').hits = st.hits + st'.hits := rfl
    rw [heq, authoritative_after]
    exact ⟨hrootSoft.2 hmet, bad, st.after st', rfl, by omega, hafter⟩
  · -- a part that fails satisfies its `enum`, and is checked first
    have hfirstSoft : ¬MayMiss first.1 first.2 :=
      (((h.steadyParts first hfirst).resolve_left hpasses).resolve_left
        (countable_iff.1 hfirstCountable).1).1
    obtain ⟨branch', hrearranged, hrun⟩ := h.run_first hread hfirst
    refine ⟨branch', hrearranged, fun n path hn => ?_⟩
    obtain ⟨root, found, st, o, heq, hrootSoft, -, hfits, hsoft, hhits⟩ := hrun n path hn
    obtain ⟨bad, rfl⟩ := Option.ne_none_iff_exists'.1 fun heq => hpasses (hfits.1 heq)
    have hs := hsoft.2 hfirstSoft
    have hpos := (hhits hs).2 hfirstHit
    rw [heq, authoritative_after]
    exact ⟨hrootSoft.2 hmet, bad, st, rfl, by omega, hs⟩

end

/-! ### Unions in another order -/

omit [Platform] in
theorem good_andThen {o o' : Checked} : (Checked.andThen o o').Good ↔ o.Good ∧ o'.Good := by
  constructor
  · rintro ⟨st, h⟩
    cases o with
    | error m => cases h
    | ok r =>
        obtain ⟨found, st₀⟩ := r
        cases found with
        | some bad => cases h
        | none =>
            cases o' with
            | error m => cases h
            | ok r' =>
                obtain ⟨found', st'⟩ := r'
                cases h
                exact ⟨⟨st₀, rfl⟩, ⟨st', rfl⟩⟩
  · rintro ⟨⟨st, rfl⟩, ⟨st', rfl⟩⟩
    exact ⟨st.after st', rfl⟩

/-- Validation passes, or does not, in structural mode. -/
def PassedAt (value : Subject) (schema : Json) : Prop :=
  ∀ n path, schema.size ≤ n → Checked.Good ((validateAt n false value schema path).run {})

def RefusedAt (value : Subject) (schema : Json) : Prop :=
  ∀ n path, schema.size ≤ n → ¬Checked.Good ((validateAt n false value schema path).run {})

section
variable {schema : Json}

/-- A union that no branch passes without a miss accepts what some branch passes and none is authoritative
against. -/
theorem good_union (hread : ReadableAt value schema) (hunion : unionBranches schema ≠ [])
    (horderly : ∀ b ∈ unionBranches schema, Orderly value b)
    (hnone : ¬∃ b ∈ unionBranches schema, Clean value b) {n : ℕ} (hn : schema.size ≤ n + 1)
    (path : JsString) : Checked.Good ((validateAt (n + 1) false value schema path).run {}) ↔
      (∃ b ∈ unionBranches schema, Meets value b) ∧ ∀ b ∈ unionBranches schema,
        ¬Authoritative ((validateAt n false value b path).run {}) := by
  have hbranches := (readableAt_iff.1 hread).2.2
  have hsize : ∀ b ∈ unionBranches schema, b.size ≤ n := fun b hb => by
    have := size_union hb
    omega
  have hreports : ∀ b ∈ unionBranches schema,
      Reports ((validateAt n false value b path).run {}) value b :=
    fun b hb => reports_validateAt (hbranches b hb) (horderly b hb) (hsize b hb) path
  have hclean : ∀ b ∈ unionBranches schema,
      Verdict ((validateAt n true value b path).run {}) (Clean value b) :=
    fun b hb => verdict_clean (hbranches b hb) (hsize b hb) path
  obtain ⟨matched, hmatch, hmatched⟩ := strictMatch_verdict hclean
  obtain rfl : matched = false := by
    by_contra hne
    exact hnone (hmatched.1 (Bool.eq_true_of_not_eq_false hne))
  have hok : ∀ b ∈ unionBranches schema, ∃ r, (validateAt n false value b path).run {} = .ok r := by
    intro b hb
    obtain ⟨found, st, hrun, -⟩ := hreports b hb
    exact ⟨_, hrun⟩
  obtain ⟨u, hu, hmeaning⟩ := softMatch_outcome hok (u := .none) fun v h => by cases h
  obtain ⟨root, hroot, -⟩ := enum_outcome value schema path
  rw [validateAt_succ, if_pos hunion, run_andThen (adds_checkUnion n false _ _ _), hroot, good_andThen,
    and_iff_right ⟨root, rfl⟩]
  unfold checkUnion
  rw [hmatch, hu]
  cases u with
  | bad bad =>
      obtain ⟨b, hb, hauth⟩ := hmeaning
      constructor
      · rintro ⟨st, heq⟩
        cases heq
      · exact fun h => absurd hauth (h.2 b hb)
  | winner soft hits =>
      obtain ⟨hquiet, hwinner⟩ := hmeaning
      obtain ⟨b, hb, hpass⟩ := hwinner.resolve_left fun h => by cases h
      have hmeets := hreports b hb
      rw [hpass] at hmeets
      exact ⟨fun _ => ⟨⟨b, hb, hmeets.meets⟩, hquiet⟩, fun _ => ⟨_, rfl⟩⟩
  | none =>
      constructor
      · rintro ⟨st, heq⟩
        cases heq
      · rintro ⟨⟨b, hb, hmeets⟩, -⟩
        obtain ⟨found, st, hrun, hfits, -⟩ := hreports b hb
        obtain rfl : found = none := hfits.2 hmeets
        exact absurd hrun (hmeaning.2 b hb st)

/-- The verdict of a union of variants when each branch is put into an order of its own. -/
theorem FlatUnion.reordered (h : FlatUnion value schema) (hread : ReadableAt value schema)
    (hnone : ¬∃ b ∈ unionBranches schema, Clean value b) {order : Json → Json}
    (horder : ∀ b ∈ unionBranches schema, Rearranged b (order b)) :
    ∃ schema', Rearranged schema schema' ∧ ∀ n path, schema'.size ≤ n →
      ∃ m, (∀ b ∈ unionBranches schema, (order b).size ≤ m) ∧
        (Checked.Good ((validateAt n false value schema' path).run {}) ↔
          (∃ b ∈ unionBranches schema, Meets value b) ∧ ∀ b ∈ unionBranches schema,
            ¬Authoritative ((validateAt m false value (order b) path).run {})) := by
  obtain ⟨hfield, hbranches⟩ := unionBranches_setField h.1
  have hall : List.Forall₂ Rearranged (unionBranches schema) ((unionBranches schema).map order) := by
    rw [List.forall₂_map_right_iff, List.forall₂_same]
    exact horder
  have hrearranged := rearranged_branches (unionKey_mem schema) hfield hall
  have hreordered := hbranches ((unionBranches schema).map order)
  generalize setField (unionKey schema) (.arr ((unionBranches schema).map order)) schema = schema'
    at hrearranged hreordered
  have hunion : unionBranches schema' ≠ [] := by
    rw [hreordered]
    exact fun heq => h.1 (List.map_eq_nil_iff.1 heq)
  have horderly : ∀ b ∈ unionBranches schema', Orderly value b := by
    rw [hreordered, List.forall_mem_map]
    exact fun b hb => (orderly_rearranged (horder b hb)).1 (h.2 b hb).orderly
  have hnone' : ¬∃ b ∈ unionBranches schema', Clean value b := by
    rw [hreordered]
    rintro ⟨b', hb', hclean⟩
    obtain ⟨b, hb, rfl⟩ := List.mem_map.1 hb'
    exact hnone ⟨b, hb, (clean_rearranged (horder b hb)).2 hclean⟩
  have hmeets : (∃ b ∈ unionBranches schema', Meets value b) ↔
      ∃ b ∈ unionBranches schema, Meets value b :=
    ((branches_match hrearranged).exists_iff fun b _ b' _ hsub => meets_rearranged hsub).symm
  refine ⟨schema', hrearranged, fun n path hn => ?_⟩
  have hpos := Json.size_pos schema'
  obtain ⟨m, rfl⟩ : ∃ m, n = m + 1 := ⟨n - 1, by omega⟩
  refine ⟨m, fun b hb => ?_, ?_⟩
  · have hmem : order b ∈ unionBranches schema' := by
      rw [hreordered]
      exact List.mem_map_of_mem hb
    have := size_union hmem
    omega
  · rw [good_union ((readableAt_rearranged hrearranged).1 hread) hunion horderly hnone' hn, hmeets,
      hreordered, List.forall_mem_map]

/-- A union of variants that is not orderly passes in one order and not in another one. -/
theorem FlatUnion.varies (h : FlatUnion value schema) (hread : ReadableAt value schema)
    (hnot : ¬Orderly value schema) : (∃ schema', Rearranged schema schema' ∧ PassedAt value schema') ∧
      ∃ schema', Rearranged schema schema' ∧ RefusedAt value schema' := by
  classical
  rw [orderly_iff, parts_of_union h.1, not_and_or] at hnot
  obtain ⟨hnone, hnot⟩ := not_or.1 (hnot.resolve_left fun hall => hall fun part hpart => by cases hpart)
  obtain ⟨hfits, hrest⟩ := not_or.1 fun hdecided => hnot ⟨fun b hb => (h.2 b hb).orderly, hdecided⟩
  obtain ⟨hclaims, hlast⟩ := not_or.1 hrest
  obtain ⟨fits, hmem, hmeets⟩ : ∃ b ∈ unionBranches schema, Meets value b := by
    simpa only [not_forall, exists_prop, not_not] using hfits
  obtain ⟨loose, hloose, hlooseNot⟩ : ∃ b ∈ unionBranches schema,
      ¬(Meets value b ∨ Unclaimed value b) := by
    simpa only [not_forall, exists_prop] using hlast
  obtain ⟨hlooseFails, hlooseClaims⟩ := not_or.1 hlooseNot
  have hreadBranches := (readableAt_iff.1 hread).2.2
  constructor
  · -- every branch is put into an order in which it is not authoritative
    have hquiet : ∀ b, ∃ b', b ∈ unionBranches schema → Rearranged b b' ∧ ∀ n path, b'.size ≤ n →
        ¬Authoritative ((validateAt n false value b' path).run {}) := by
      intro b
      by_cases hb : b ∈ unionBranches schema
      · by_cases hmeets : Meets value b
        · refine ⟨b, fun _ => ⟨rearranged_refl b, fun n path hn => ?_⟩⟩
          obtain ⟨st, hrun⟩ := ((h.2 b hb).orderly.good_iff (hreadBranches b hb) hn path).2 hmeets
          rw [hrun]
          rintro ⟨bad, st', heq, -⟩
          cases heq
        · obtain ⟨b', hb'⟩ := (h.2 b hb).quiet (hreadBranches b hb) hmeets fun hclaimed =>
            hclaims ⟨b, hb, hclaimed, hmeets⟩
          exact ⟨b', fun _ => hb'⟩
      · exact ⟨b, fun h => absurd h hb⟩
    choose quiet hquiet using hquiet
    obtain ⟨schema', hrearranged, hgood⟩ := h.reordered hread hnone fun b hb => (hquiet b hb).1
    refine ⟨schema', hrearranged, fun n path hn => ?_⟩
    obtain ⟨m, hsize, hiff⟩ := hgood n path hn
    exact hiff.2 ⟨⟨fits, hmem, hmeets⟩, fun b hb => (hquiet b hb).2 m _ (hsize b hb)⟩
  · -- the branch that the value claims in some order is put into it
    obtain ⟨loud, hloud, hauth⟩ :=
      (h.2 loose hloose).loud (hreadBranches loose hloose) hlooseFails hlooseClaims
    have horder : ∀ b ∈ unionBranches schema, Rearranged b (if b = loose then loud else b) := by
      intro b _
      split
      · next heq => exact heq ▸ hloud
      · exact rearranged_refl b
    obtain ⟨schema', hrearranged, hgood⟩ := h.reordered hread hnone horder
    refine ⟨schema', hrearranged, fun n path hn hpassed => ?_⟩
    obtain ⟨m, hsize, hiff⟩ := hgood n path hn
    have hloudSize := hsize loose hloose
    have hverdict := (hiff.1 hpassed).2 loose hloose
    rw [if_pos rfl] at hloudSize hverdict
    exact hverdict (hauth m _ hloudSize)

end

end

end VibeRouter
