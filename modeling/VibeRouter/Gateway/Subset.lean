import VibeRouter.Db.Tables
import VibeRouter.Gateway.Validation
import VibeRouter.Lib.JsonText

/-! # What strict validation accepts

`Satisfies` is the meaning of the supported keywords; `Passes` is what strict validation looks at: a
union hides the keywords beside it, `anyOf` hides `oneOf`, members of an `enum` are compared by their
texts, and a property may be inherited.  `accepted_iff_passes` says that a value is accepted exactly if it
passes, and `strict_validation_means` when that is what the keywords mean. -/

namespace VibeRouter

/-! ### The meaning of the keywords -/

/-- The types a value has. -/
def HasType : Json → JsString → Prop
  | .null, t => t = js "null"
  | .bool _, t => t = js "boolean"
  | .num n, t => t = js "number" ∨ (t = js "integer" ∧ n.den = 1)
  | .str _, t => t = js "string"
  | .arr _, t => t = js "array"
  | .obj _, t => t = js "object"

/-- The same value, whatever the order of its members. -/
def SameValue (v w : Json) : Prop := v.sortKeys = w.sortKeys

/-- The entries of `type`: one or several. -/
def typeEntries : Json → List Json
  | .arr ts => ts
  | t => [t]

/-- The keywords of a union. -/
def UNIONS : List String := ["anyOf", "oneOf"]

/-- A value satisfies every keyword of a schema, and what is nested in it the nested schemas; only its
own properties count as present. -/
def Satisfies (value schema : Json) : Prop :=
  (∀ es, schema.field "enum" = some (.arr es) → ∃ e ∈ es, SameValue e value) ∧
  (∀ t, schema.field "type" = some t → (∃ name, Json.str name ∈ typeEntries t ∧ HasType value name) ∨
    (schema.field "nullable" = some (.bool true) ∧ value = .null)) ∧
  (∀ keys fields, schema.field "required" = some (.arr keys) → value = .obj fields →
    ∀ key, Json.str key ∈ keys → (fields.lookup key).isSome = true) ∧
  (∀ ps fields, schema.field "properties" = some (.obj ps) → value = .obj fields →
    ∀ p ∈ ps, ∀ v, fields.lookup p.1 = some v → Satisfies v p.2) ∧
  (∀ items xs, schema.field "items" = some items → value = .arr xs → ∀ x ∈ xs, Satisfies x items) ∧
  ∀ key ∈ UNIONS, ∀ bs, schema.field key = some (.arr bs) → ∃ b, ∃ _ : b ∈ bs, Satisfies value b
termination_by schema.size
decreasing_by
  · exact (Json.size_mem_obj ‹p ∈ ps›).trans (Json.size_field ‹_ = some (Json.obj ps)›)
  · exact Json.size_field ‹_ = some items›
  · exact (Json.size_mem_arr ‹b ∈ bs›).trans (Json.size_field ‹_ = some (Json.arr bs)›)

/-- A schema that is built from the supported keywords. -/
def Built (schema : Json) : Prop :=
  (∃ es, schema = .obj es) ∧
  (∀ v, schema.field "enum" = some v → ∃ es, v = .arr es) ∧
  (∀ t, schema.field "type" = some t → ∀ v ∈ typeEntries t, ∃ name, v = .str name) ∧
  (∀ v, schema.field "nullable" = some v → ∃ b, v = .bool b) ∧
  (∀ v, schema.field "required" = some v →
    ∃ keys : List JsString, v = .arr (keys.map Json.str)) ∧
  (∀ v, schema.field "properties" = some v → ∃ ps, ∃ _ : v = .obj ps, ∀ p ∈ ps, Built p.2) ∧
  (∀ v, schema.field "items" = some v → Built v) ∧
  ∀ key ∈ UNIONS, ∀ v, schema.field key = some v → ∃ bs, ∃ _ : v = .arr bs, ∀ b ∈ bs, Built b
termination_by schema.size
decreasing_by
  · subst v
    exact (Json.size_mem_obj ‹p ∈ ps›).trans (Json.size_field ‹_ = some (Json.obj ps)›)
  · exact Json.size_field ‹_ = some v›
  · subst v
    exact (Json.size_mem_arr ‹b ∈ bs›).trans (Json.size_field ‹_ = some (Json.arr bs)›)

theorem size_union {schema b : Json} (h : b ∈ unionBranches schema) : b.size < schema.size := by
  have hfield : ∀ {key : String} {v : Json}, schema.field key = some v →
      (∀ bs, v = .arr bs → b ∈ bs → b.size < schema.size) := by
    intro key v hv bs hbs hb
    rw [hbs] at hv
    exact (Json.size_mem_arr hb).trans (Json.size_field hv)
  unfold unionBranches at h
  dsimp only at h
  split at h
  · next bs hbranches =>
      split at hbranches
      · exact hfield hbranches bs rfl h
      · exact hfield hbranches bs rfl h
      · next hany => 
          cases hbranches
          exact hfield hany bs rfl h
  · cases h

theorem built_branch {schema b : Json} (h : Built schema) (hb : b ∈ unionBranches schema) : Built b := by
  rw [Built] at h
  obtain ⟨-, -, -, -, -, -, -, hunions⟩ := h
  have hbranches : ∀ key ∈ UNIONS, ∀ bs, schema.field key = some (.arr bs) → b ∈ bs → Built b := by
    intro key hkey bs hfield hb
    obtain ⟨bs', heq, hbuilt⟩ := hunions key hkey _ hfield
    cases heq
    exact hbuilt b hb
  unfold unionBranches at hb
  dsimp only at hb
  split at hb
  · next bs hfield =>
      split at hfield
      · exact hbranches "oneOf" (by decide) bs hfield hb
      · exact hbranches "oneOf" (by decide) bs hfield hb
      · next hany =>
          cases hfield
          exact hbranches "anyOf" (by decide) bs hany hb
  · cases hb

/-- The keywords that a union hides. -/
def STRUCTURAL : List String := ["type", "properties", "required", "items"]

/-- A union that stands alone is the one that is looked at. -/
theorem union_alone {key : String} (hkey : key ∈ UNIONS) {schema : Json} {bs : List Json}
    (hfield : schema.field key = some (.arr bs))
    (halone : ∀ other ∈ STRUCTURAL ++ UNIONS, other ≠ key → schema.field other = none) :
    unionBranches schema = bs := by
  unfold unionBranches
  rcases List.mem_cons.1 hkey with rfl | hkey
  · rw [hfield]
  · obtain rfl := List.mem_singleton.1 hkey
    rw [halone "anyOf" (by decide) (by decide), hfield]

theorem union_field {schema : Json} (h : Built schema) (hne : unionBranches schema ≠ []) :
    ∃ key ∈ UNIONS, schema.field key = some (.arr (unionBranches schema)) := by
  rw [Built] at h
  obtain ⟨-, -, -, -, -, -, -, hunions⟩ := h
  unfold unionBranches at hne ⊢
  cases hany : schema.field "anyOf" with
  | some v =>
      obtain ⟨bs, rfl, -⟩ := hunions "anyOf" (by decide) v hany
      exact ⟨"anyOf", by decide, hany⟩
  | none =>
      rw [hany] at hne
      cases hone : schema.field "oneOf" with
      | none =>
          rw [hone] at hne
          exact absurd rfl hne
      | some v =>
          obtain ⟨bs, rfl, -⟩ := hunions "oneOf" (by decide) v hone
          exact ⟨"oneOf", by decide, hone⟩

/-! ### Verdicts -/

/-- An outcome without a `TypeError`, that is good exactly if `p` holds. -/
def Verdict (o : Checked) (p : Prop) : Prop := ∃ found st, o = .ok (found, st) ∧ (found = none ↔ p)

theorem Verdict.andThen {o o' : Checked} {p q : Prop} (h : Verdict o p) (h' : Verdict o' q) :
    Verdict (Checked.andThen o o') (p ∧ q) := by
  obtain ⟨found, st, rfl, hp⟩ := h
  obtain ⟨found', st', rfl, hq⟩ := h'
  cases found with
  | some bad =>
      refine ⟨some bad, st, rfl, ?_, fun h => hp.2 h.1⟩
      intro h
      cases h
  | none => exact ⟨found', st.after st', rfl, fun h => ⟨hp.1 rfl, hq.1 h⟩, fun h => hq.2 h.2⟩

theorem Verdict.congr {o : Checked} {p q : Prop} (h : Verdict o p) (hpq : p ↔ q) : Verdict o q := by
  obtain ⟨found, st, ho, hp⟩ := h
  exact ⟨found, st, ho, hp.trans hpq⟩

theorem verdict_pure (bad : Option SchemaViolation) :
    Verdict ((pure bad : Check).run {}) (bad = none) := ⟨bad, {}, rfl, Iff.rfl⟩

theorem verdict_firstBad {ι : Type} {is : List ι} {c : ι → Check} {p : ι → Prop}
    (hadds : ∀ i ∈ is, Adds (c i)) (h : ∀ i ∈ is, Verdict ((c i).run {}) (p i)) :
    Verdict ((firstBad (is.map c)).run {}) (∀ i ∈ is, p i) := by
  induction is with
  | nil => exact (verdict_pure none).congr (by simp)
  | cons i is ih =>
      obtain ⟨hi, his⟩ := List.forall_mem_cons.1 h
      obtain ⟨-, haddsRest⟩ := List.forall_mem_cons.1 hadds
      have hrest : Adds (firstBad (is.map c)) := adds_firstBad fun d hd => by
        obtain ⟨j, hj, rfl⟩ := List.mem_map.1 hd
        exact haddsRest j hj
      rw [List.map_cons, firstBad_cons, run_andThen hrest]
      exact (hi.andThen (ih haddsRest his)).congr List.forall_mem_cons.symm

/-- The first pass looks for a branch that holds. -/
theorem strictMatch_verdict {validate : Json → Check} {p : Json → Prop} {bs : List Json}
    (h : ∀ b ∈ bs, Verdict ((validate b).run {}) (p b)) :
    ∃ matched, strictMatch validate bs = .ok matched ∧ (matched = true ↔ ∃ b ∈ bs, p b) := by
  induction bs with
  | nil => exact ⟨false, rfl, by simp⟩
  | cons b bs ih =>
      obtain ⟨⟨found, st, hrun, hp⟩, hbs⟩ := List.forall_mem_cons.1 h
      cases found with
      | none =>
          refine ⟨true, ?_, fun _ => ⟨b, List.mem_cons_self, hp.1 rfl⟩, fun _ => rfl⟩
          unfold strictMatch
          rw [hrun]
          rfl
      | some bad =>
          obtain ⟨matched, hmatch, hbranch⟩ := ih hbs
          refine ⟨matched, ?_, ?_⟩
          · unfold strictMatch
            rw [hrun]
            exact hmatch
          · rw [hbranch, List.exists_mem_cons_iff, or_iff_right]
            intro hb
            cases hp.2 hb

theorem typeMatches_iff {value : Json} {name : JsString} :
    typeMatches (some value) (.str name) = true ↔ HasType value name := by
  unfold typeMatches
  dsimp only
  by_cases hname : name = js "integer"
  · have hne : ∀ t ∈ ["null", "boolean", "number", "string", "array", "object"],
        js "integer" ≠ js t := by decide
    rw [if_pos hname, hname]
    cases value with
    | num n => simp [HasType, hne "number" (by decide)]
    | null => exact ⟨fun h => (by cases h), fun h => absurd h (hne "null" (by decide))⟩
    | bool b => exact ⟨fun h => (by cases h), fun h => absurd h (hne "boolean" (by decide))⟩
    | str s => exact ⟨fun h => (by cases h), fun h => absurd h (hne "string" (by decide))⟩
    | arr xs => exact ⟨fun h => (by cases h), fun h => absurd h (hne "array" (by decide))⟩
    | obj es => exact ⟨fun h => (by cases h), fun h => absurd h (hne "object" (by decide))⟩
  · rw [if_neg hname, decide_eq_true_eq]
    cases value <;> simp [HasType, typeOf, hname, eq_comm]

/-- The type of the value is permitted. -/
def TypePermitted (value : Subject) (schema : Json) : Prop :=
  ∀ t, schema.field "type" = some t → (typeEntries t).any (typeMatches value) = true ∨
    (schema.field "nullable" = some (.bool true) ∧ value = some .null)

theorem typePermitted_iff {value schema : Json} (h : Built schema) :
    TypePermitted (some value) schema ↔
      ∀ t, schema.field "type" = some t → (∃ name, Json.str name ∈ typeEntries t ∧ HasType value name) ∨
        (schema.field "nullable" = some (.bool true) ∧ value = .null) := by
  rw [Built] at h
  obtain ⟨-, -, htype, -⟩ := h
  unfold TypePermitted
  refine forall_congr' fun t => forall_congr' fun hfield => or_congr ?_ (by rw [Option.some.injEq])
  rw [List.any_eq_true]
  constructor
  · intro h
    obtain ⟨v, hv, hmatch⟩ := h
    obtain ⟨name, rfl⟩ := htype t hfield v hv
    exact ⟨name, hv, typeMatches_iff.1 hmatch⟩
  · intro h
    obtain ⟨name, hname, hhas⟩ := h
    exact ⟨.str name, hname, typeMatches_iff.2 hhas⟩

theorem typeMatches_null {value : Subject} :
    typeMatches value (.str (js "null")) = true ↔ value = some .null := by
  have hne : js "null" ≠ js "integer" := by decide
  have hmatch : typeMatches value (.str (js "null")) = decide (js (typeOf value) = js "null") := by
    unfold typeMatches
    dsimp only
    rw [if_neg hne]
  rw [hmatch, decide_eq_true_eq]
  cases value with
  | none => exact ⟨fun h => absurd h (by decide), fun h => by cases h⟩
  | some v =>
      cases v with
      | null => exact ⟨fun _ => rfl, fun _ => rfl⟩
      | bool b =>
          exact ⟨fun h => absurd (show js "boolean" = js "null" from h) (by decide), fun h => by cases h⟩
      | num n =>
          exact ⟨fun h => absurd (show js "number" = js "null" from h) (by decide), fun h => by cases h⟩
      | str s =>
          exact ⟨fun h => absurd (show js "string" = js "null" from h) (by decide), fun h => by cases h⟩
      | arr xs =>
          exact ⟨fun h => absurd (show js "array" = js "null" from h) (by decide), fun h => by cases h⟩
      | obj es =>
          exact ⟨fun h => absurd (show js "object" = js "null" from h) (by decide), fun h => by cases h⟩

theorem mem_presentProperties {schema : Json} {fields ps : List (JsString × Json)}
    (h : schema.field "properties" = some (.obj ps)) {q : JsString × Subject × Json} :
    q ∈ presentProperties fields schema ↔
      ∃ p ∈ ps, ∃ v, property fields p.1 = some v ∧ q = (p.1, v, p.2) := by
  unfold presentProperties
  rw [h, List.mem_filterMap]
  simp only [Option.map_some, Option.getD_some, objectEntries, Option.map_eq_some_iff]
  constructor
  · intro hq
    obtain ⟨p, hp, v, hv, rfl⟩ := hq
    exact ⟨p, hp, v, hv, rfl⟩
  · intro hq
    obtain ⟨p, hp, v, hv, rfl⟩ := hq
    exact ⟨p, hp, v, hv, rfl⟩

section
variable [Platform]

/-! ### What strict validation looks at -/

/-- The entries of `type`, and `null` if that is permitted too. -/
def permittedEntries (schema t : Json) : List Json :=
  match schema.field "nullable" with
  | some (.bool true) => typeEntries t ++ [Json.str (js "null")]
  | _ => typeEntries t

/-- A value passes what strict validation looks at: an `enum` that is not empty, by the texts of its
members; then a union that is not empty, and nothing beside it; or else the type, the properties and the
required properties that the value has or inherits, and the items. -/
def Passes (value : Subject) (schema : Json) : Prop :=
  (∀ e es, schema.field "enum" = some (.arr (e :: es)) → (e :: es).any (sameJson value) = true) ∧
  (unionBranches schema ≠ [] → ∃ b, ∃ _ : b ∈ unionBranches schema, Passes value b) ∧
  (unionBranches schema = [] → TypePermitted value schema ∧
    (∀ ps fields, schema.field "properties" = some (.obj ps) → value = some (.obj fields) →
      ∀ p ∈ ps, ∀ v, property fields p.1 = some v → Passes v p.2) ∧
    (∀ keys fields, schema.field "required" = some (.arr keys) → value = some (.obj fields) →
      ∀ key, Json.str key ∈ keys → (property fields key).isSome = true) ∧
    ∀ items xs, schema.field "items" = some items → value = some (.arr xs) →
      ∀ x ∈ xs, Passes (some x) items)
termination_by schema.size
decreasing_by
  · exact size_union ‹b ∈ unionBranches schema›
  · exact (Json.size_mem_obj ‹p ∈ ps›).trans (Json.size_field ‹_ = some (Json.obj ps)›)
  · exact Json.size_field ‹_ = some items›

theorem verdict_checkEnum (value : Subject) (schema : Json) (path : JsString) :
    Verdict ((checkEnum true value schema path).run {})
      (∀ e es, schema.field "enum" = some (.arr (e :: es)) → (e :: es).any (sameJson value) = true) := by
  unfold checkEnum
  split
  · next e es hfield =>
      have hall : (∀ e' es', schema.field "enum" = some (.arr (e' :: es')) →
          (e' :: es').any (sameJson value) = true) ↔ (e :: es).any (sameJson value) = true := by
        constructor
        · exact fun h => h e es hfield
        · intro h e' es' hfield'
          rw [hfield] at hfield'
          cases hfield'
          exact h
      split
      · next hany => exact ⟨none, _, rfl, fun _ => hall.2 hany, fun _ => rfl⟩
      · next hany =>
          refine ⟨some _, _, rfl, ?_, fun h => absurd (hall.1 h) hany⟩
          intro h
          cases h
  · next hfield =>
      refine ⟨none, _, rfl, fun _ e es h => ?_, fun _ => rfl⟩
      exact absurd h (hfield e es)

theorem checkType_verdict (value : Subject) (schema : Json) (path : JsString) :
    checkType value schema path = none ↔ TypePermitted value schema := by
  unfold TypePermitted
  cases hfield : schema.field "type" with
  | none =>
      unfold checkType
      rw [hfield]
      refine ⟨fun _ t h => ?_, fun _ => rfl⟩
      cases h
  | some t =>
      have hite : ∀ (b : Bool) (bad : SchemaViolation),
          (if b = true then none else some bad) = none ↔ b = true := by
        intro b bad
        cases b <;> simp
      have hpermitted : checkType value schema path = none ↔
          (permittedEntries schema t).any (typeMatches value) = true := by
        unfold checkType permittedEntries
        rw [hfield]
        cases t <;> exact hite _ _
      rw [hpermitted]
      simp only [Option.some.injEq, forall_eq']
      unfold permittedEntries
      split
      · next hnull =>
          rw [List.any_append, Bool.or_eq_true, hnull]
          simp [typeMatches_null]
      · next hnot =>
          rw [or_iff_left]
          exact fun h => hnot h.1

/-- What is nested in a value passes, by `p`: the properties it has or inherits, the required ones and
the items. -/
def Nested (p : Subject → Json → Prop) (value : Subject) (schema : Json) : Prop :=
  (∀ ps fields, schema.field "properties" = some (.obj ps) → value = some (.obj fields) →
    ∀ q ∈ ps, ∀ v, property fields q.1 = some v → p v q.2) ∧
  (∀ keys fields, schema.field "required" = some (.arr keys) → value = some (.obj fields) →
    ∀ key, Json.str key ∈ keys → (property fields key).isSome = true) ∧
  ∀ items xs, schema.field "items" = some items → value = some (.arr xs) → ∀ x ∈ xs, p (some x) items

theorem passes_iff {value : Subject} {schema : Json} : Passes value schema ↔
    (∀ e es, schema.field "enum" = some (.arr (e :: es)) → (e :: es).any (sameJson value) = true) ∧
    (unionBranches schema ≠ [] → ∃ b ∈ unionBranches schema, Passes value b) ∧
    (unionBranches schema = [] → TypePermitted value schema ∧ Nested Passes value schema) := by
  rw [Passes]
  simp only [exists_prop]
  rfl

section
variable {schema : Json}

theorem verdict_checkRequired (h : Built schema) (fields : List (JsString × Json)) (path : JsString) :
    Verdict ((checkRequired fields schema path).run {})
      (∀ keys, schema.field "required" = some (.arr keys) →
        ∀ key, Json.str key ∈ keys → (property fields key).isSome = true) := by
  rw [Built] at h
  obtain ⟨-, -, -, -, hrequired, -⟩ := h
  unfold checkRequired requiredKeys
  cases hfield : schema.field "required" with
  | none => exact (verdict_pure none).congr (by simp)
  | some r =>
      obtain ⟨keys, rfl⟩ := hrequired r hfield
      have htext : (keys.map Json.str).map propertyText = keys := by
        rw [List.map_map]
        exact List.map_id keys
      have hrun : iterateKeys (.arr (keys.map Json.str)) = .ok (keys.map Json.str) := rfl
      dsimp only
      rw [hrun]
      simp only [Except.map, htext]
      refine (verdict_pure _).congr ?_
      rw [List.findSome?_eq_none_iff]
      constructor
      · intro h keys' heq key hkey
        cases heq
        obtain ⟨key', hkey', heq⟩ := List.mem_map.1 hkey
        cases heq
        by_contra hnot
        have := h key hkey'
        rw [if_neg hnot] at this
        cases this
      · intro h key hkey
        exact if_pos (h _ rfl key (List.mem_map_of_mem hkey))

theorem verdict_checkNested {n : ℕ} {p : Subject → Json → Prop} {value : Subject} (h : Built schema)
    (ih : ∀ value sub path, Built sub → sub.size < schema.size →
      Verdict ((validateAt n true value sub path).run {}) (p value sub)) (path : JsString) :
    Verdict ((checkNested n true value schema path).run {}) (Nested p value schema) := by
  have hbuilt := h
  rw [Built] at hbuilt
  obtain ⟨-, -, -, -, hrequired, hproperties, hitems, -⟩ := hbuilt
  unfold checkNested
  split
  · next fields =>
      split
      · have hadds := adds_checkRequired fields schema path
        rw [run_andThen hadds]
        have hprops : Verdict ((checkProperties n true fields schema path).run {})
            (∀ q ∈ presentProperties fields schema, p q.2.1 q.2.2) := by
          refine verdict_firstBad (fun q _ => adds_validateAt n true _ _ _) fun q hq => ?_
          cases hfield : schema.field "properties" with
          | none =>
              unfold presentProperties at hq
              rw [hfield] at hq
              cases hq
          | some v =>
              obtain ⟨ps, rfl, hps⟩ := hproperties v hfield
              obtain ⟨r, hr, v, hv, rfl⟩ := (mem_presentProperties hfield).1 hq
              exact ih v r.2 _ (hps r hr) ((Json.size_mem_obj hr).trans (Json.size_field hfield))
        refine (hprops.andThen (verdict_checkRequired h fields path)).congr ?_
        constructor
        · intro hall
          refine ⟨fun ps fields' hfield heq q hq v hv => ?_, fun keys fields' hfield heq => ?_,
            fun items xs _ heq => by cases heq⟩
          · cases heq
            exact hall.1 (q.1, v, q.2) ((mem_presentProperties hfield).2 ⟨q, hq, v, hv, rfl⟩)
          · cases heq
            exact hall.2 keys hfield
        · intro hnested
          refine ⟨fun q hq => ?_, fun keys hfield => hnested.2.1 keys fields hfield rfl⟩
          cases hfield : schema.field "properties" with
          | none =>
              unfold presentProperties at hq
              rw [hfield] at hq
              cases hq
          | some v =>
              obtain ⟨ps, rfl, -⟩ := hproperties v hfield
              obtain ⟨r, hr, v, hv, rfl⟩ := (mem_presentProperties hfield).1 hq
              exact hnested.1 ps fields hfield rfl r hr v hv
      · next hread =>
          rw [Bool.or_eq_true, not_or] at hread
          refine (verdict_pure none).congr ⟨fun _ => ⟨?_, ?_, ?_⟩, fun _ => rfl⟩
          · intro ps fields' hfield
            rw [hfield] at hread
            exact absurd rfl hread.1
          · intro keys fields' hfield
            rw [hfield] at hread
            exact absurd rfl hread.2
          · intro items xs _ heq
            cases heq
  · next xs =>
      cases hfield : schema.field "items" with
      | none =>
          refine (verdict_pure none).congr ⟨fun _ => ⟨?_, ?_, ?_⟩, fun _ => rfl⟩
          · intro ps fields _ heq
            cases heq
          · intro keys fields _ heq
            cases heq
          · intro items xs' hitems'
            rw [hfield] at hitems'
            cases hitems'
      | some items =>
          have hsub := hitems items hfield
          have htruthy : (some items).filter Json.truthy = some items := by
            have hobj := hsub
            rw [Built] at hobj
            obtain ⟨⟨es, rfl⟩, -⟩ := hobj
            rfl
          rw [htruthy]
          dsimp only
          refine Verdict.congr (verdict_firstBad (p := fun x => p (some x.1) items)
            (fun x _ => adds_validateAt n true _ _ _) fun x _ =>
              ih (some x.1) items _ hsub (Json.size_field hfield)) ?_
          constructor
          · intro hall
            refine ⟨fun ps fields _ heq => (by cases heq), fun keys fields _ heq => (by cases heq), ?_⟩
            intro items' xs' hitems' heq x hx
            cases heq
            rw [hfield] at hitems'
            cases hitems'
            obtain ⟨i, hi⟩ := List.mem_iff_getElem?.1 hx
            exact hall (x, i) (List.mk_mem_zipIdx_iff_getElem?.2 hi)
          · intro hnested x hx
            exact hnested.2.2 items xs hfield rfl x.1 (List.fst_mem_of_mem_zipIdx hx)
  · next hobj harr =>
      refine (verdict_pure none).congr ⟨fun _ => ⟨?_, ?_, ?_⟩, fun _ => rfl⟩
      · exact fun ps fields _ heq => absurd heq (hobj fields)
      · exact fun keys fields _ heq => absurd heq (hobj fields)
      · exact fun items xs _ heq => absurd heq (harr xs)

end

/-- Strict validation of a schema that is built from the supported keywords throws nothing, and finds
nothing exactly if the value passes. -/
theorem verdict_validateAt {n : ℕ} {value : Subject} {schema : Json} (h : Built schema)
    (hn : schema.size ≤ n) (path : JsString) :
    Verdict ((validateAt n true value schema path).run {}) (Passes value schema) := by
  induction n generalizing value schema path with
  | zero =>
      have := Json.size_pos schema
      omega
  | succ n ih =>
      rw [validateAt_succ, passes_iff]
      by_cases hunion : unionBranches schema = []
      · rw [if_neg (not_not.2 hunion)]
        have hnested := adds_checkNested n true value schema path
        rw [run_andThen ((adds_pure _).andThen hnested), run_andThen hnested]
        refine Verdict.congr ((verdict_checkEnum value schema path).andThen (Verdict.andThen
          ((verdict_pure _).congr (checkType_verdict value schema path))
          (verdict_checkNested h (fun value sub path hsub hlt => ih hsub (by omega) path) path))) ?_
        refine and_congr_right fun _ => ⟨fun h => ⟨fun hne => absurd hunion hne, fun _ => h⟩, fun h => ?_⟩
        exact h.2 hunion
      · rw [if_pos hunion, run_andThen (adds_checkUnion n true value _ path)]
        refine Verdict.congr ((verdict_checkEnum value schema path).andThen
          (q := ∃ b ∈ unionBranches schema, Passes value b) ?_) ?_
        · obtain ⟨matched, hmatch, hbranch⟩ : ∃ matched,
              strictMatch (fun b => validateAt n true value b path) (unionBranches schema) =
                .ok matched ∧ (matched = true ↔ ∃ b ∈ unionBranches schema, Passes value b) :=
            strictMatch_verdict fun b hb =>
              ih (built_branch h hb) (by have := size_union hb; omega) path
          unfold checkUnion
          rw [hmatch]
          cases matched with
          | true => exact ⟨none, _, rfl, fun _ => hbranch.1 rfl, fun _ => rfl⟩
          | false =>
              refine ⟨some _, _, rfl, ?_, fun h => ?_⟩
              · intro heq
                cases heq
              · cases hbranch.2 h
        · refine and_congr_right fun _ => ⟨fun h => ⟨fun _ => h, fun heq => absurd heq hunion⟩, fun h => ?_⟩
          exact h.1 hunion

/-! ### When that is what the keywords mean -/

/-- The `enum` has the text of the value, if it is not empty. -/
def EnumSeen (value : Subject) (schema : Json) : Prop :=
  ∀ e es, schema.field "enum" = some (.arr (e :: es)) → (e :: es).any (sameJson value) = true

/-- What the sub-schemas of a schema ask of a value.  A method has no meaning for the keywords; it passes
or does not. -/
def Means : Subject → Json → Prop
  | some value, schema => Satisfies value schema
  | none, schema => Passes none schema

/-- What strict validation looks at in one schema holds of the value, the verdicts on its sub-schemas
being what they mean. -/
def Passable (value schema : Json) : Prop :=
  EnumSeen (some value) schema ∧
  (unionBranches schema ≠ [] → ∃ b ∈ unionBranches schema, Satisfies value b) ∧
  (unionBranches schema = [] → TypePermitted (some value) schema ∧ Nested Means (some value) schema)

/-! #### The keywords one by one -/

section
variable (value schema : Json)

def EnumMeans : Prop := ∀ es, schema.field "enum" = some (.arr es) → ∃ e ∈ es, SameValue e value

def TypeMeans : Prop :=
  ∀ t, schema.field "type" = some t → (∃ name, Json.str name ∈ typeEntries t ∧ HasType value name) ∨
    (schema.field "nullable" = some (.bool true) ∧ value = .null)

def RequiredMeans : Prop :=
  ∀ keys fields, schema.field "required" = some (.arr keys) → value = .obj fields →
    ∀ key, Json.str key ∈ keys → (fields.lookup key).isSome = true

def PropertiesMean : Prop :=
  ∀ ps fields, schema.field "properties" = some (.obj ps) → value = .obj fields →
    ∀ p ∈ ps, ∀ v, fields.lookup p.1 = some v → Satisfies v p.2

def ItemsMean : Prop :=
  ∀ items xs, schema.field "items" = some items → value = .arr xs → ∀ x ∈ xs, Satisfies x items

def UnionsMean : Prop :=
  ∀ key ∈ UNIONS, ∀ bs, schema.field key = some (.arr bs) → ∃ b ∈ bs, Satisfies value b

/-- Keywords that are not looked at, or not as they are meant, are violated: an `enum` by a value that it
has the text of, or that it is empty for; a union that is empty or stands behind another one; a required
property by one that is only inherited; and beside a union that is looked at the rest. -/
def Hides : Prop :=
  ¬EnumMeans value schema ∨ ¬UnionsMean value schema ∨ ¬RequiredMeans value schema ∨
    (unionBranches schema ≠ [] ∧
      ¬(TypeMeans value schema ∧ PropertiesMean value schema ∧ ItemsMean value schema))

/-- What is looked at is violated, although no keyword asks for it: the text of a member of the `enum`, and
a schema by a property that is only inherited. -/
def Alarms : Prop :=
  ¬EnumSeen (some value) schema ∨
    (unionBranches schema = [] ∧ ∃ ps fields, schema.field "properties" = some (.obj ps) ∧
      value = .obj fields ∧ ∃ p ∈ ps, fields.lookup p.1 = none ∧
        ∃ v, property fields p.1 = some v ∧ ¬Means v p.2)

end

section
variable {value schema : Json}

omit [Platform] in
theorem satisfies_iff : Satisfies value schema ↔ EnumMeans value schema ∧ TypeMeans value schema ∧
    RequiredMeans value schema ∧ PropertiesMean value schema ∧ ItemsMean value schema ∧
    UnionsMean value schema := by
  rw [Satisfies]
  simp only [exists_prop]
  rfl

omit [Platform] in
theorem property_of_lookup {fields : List (JsString × Json)} {key : JsString} {v : Json}
    (h : fields.lookup key = some v) : property fields key = some (some v) := by
  unfold property
  rw [h]

/-- A schema that a value sees nothing wrong with is violated only where it hides something. -/
theorem Passable.not_satisfies_iff (hbuilt : Built schema) (h : Passable value schema) :
    ¬Satisfies value schema ↔ Hides value schema := by
  obtain ⟨-, hunion, hrest⟩ := h
  rw [satisfies_iff]
  constructor
  · intro hnot
    by_contra hhides
    unfold Hides at hhides
    push Not at hhides
    obtain ⟨henum, hunions, hrequired, hbeside⟩ := hhides
    by_cases hempty : unionBranches schema = []
    · obtain ⟨htype, hproperties, -, hitems⟩ := hrest hempty
      refine hnot ⟨henum, (typePermitted_iff hbuilt).1 htype, hrequired, ?_, ?_, hunions⟩
      · intro ps fields hfield heq p hp v hv
        exact hproperties ps fields hfield (congrArg some heq) p hp (some v) (property_of_lookup hv)
      · intro items xs hfield heq x hx
        exact hitems items xs hfield (congrArg some heq) x hx
    · obtain ⟨htype, hproperties, hitems⟩ := hbeside hempty
      exact hnot ⟨henum, htype, hrequired, hproperties, hitems, hunions⟩
  · rintro hhides ⟨henum, htype, hrequired, hproperties, hitems, hunions⟩
    rcases hhides with hnot | hnot | hnot | ⟨-, hnot⟩
    · exact hnot henum
    · exact hnot hunions
    · exact hnot hrequired
    · exact hnot ⟨htype, hproperties, hitems⟩

/-- A value that satisfies a schema is found wrong only by a false alarm. -/
theorem not_passable_iff (hbuilt : Built schema) (h : Satisfies value schema) :
    ¬Passable value schema ↔ Alarms value schema := by
  obtain ⟨-, htype, hrequired, hproperties, hitems, hunions⟩ := satisfies_iff.1 h
  constructor
  · intro hnot
    by_contra halarms
    unfold Alarms at halarms
    push Not at halarms
    obtain ⟨henum, hinherited⟩ := halarms
    refine hnot ⟨henum, fun hne => ?_, fun hempty => ⟨(typePermitted_iff hbuilt).2 htype, ?_, ?_, ?_⟩⟩
    · obtain ⟨key, hkey, hfield⟩ := union_field hbuilt hne
      exact hunions key hkey _ hfield
    · intro ps fields hfield heq p hp v hv
      have heq := Option.some.inj heq
      cases hlookup : fields.lookup p.1 with
      | none => exact hinherited hempty ps fields hfield heq p hp hlookup v hv
      | some w =>
          rw [property_of_lookup hlookup] at hv
          cases hv
          exact hproperties ps fields hfield heq p hp w hlookup
    · intro keys fields hfield heq key hkey
      obtain ⟨w, hw⟩ := Option.isSome_iff_exists.1
        (hrequired keys fields hfield (Option.some.inj heq) key hkey)
      rw [property_of_lookup hw]
      rfl
    · intro items xs hfield heq x hx
      exact hitems items xs hfield (Option.some.inj heq) x hx
  · rintro halarms ⟨henum, -, hrest⟩
    rcases halarms with hnot | ⟨hempty, ps, fields, hfield, heq, p, hp, -, v, hv, hnot⟩
    · exact hnot henum
    · exact hnot ((hrest hempty).2.1 ps fields hfield (congrArg some heq) p hp v hv)

/-- Nothing that decides is hidden or a false alarm. -/
def Fair (value schema : Json) : Prop :=
  ¬(Passable value schema ∧ Hides value schema) ∧ ¬(Satisfies value schema ∧ Alarms value schema)

theorem fair_iff (hbuilt : Built schema) :
    Fair value schema ↔ (Passable value schema ↔ Satisfies value schema) := by
  constructor
  · rintro ⟨hhides, halarms⟩
    constructor
    · intro hpass
      by_contra hnot
      exact hhides ⟨hpass, (hpass.not_satisfies_iff hbuilt).1 hnot⟩
    · intro hsatisfies
      by_contra hnot
      exact halarms ⟨hsatisfies, (not_passable_iff hbuilt hsatisfies).1 hnot⟩
  · intro hiff
    refine ⟨fun ⟨hpass, hhides⟩ => ?_, fun ⟨hsatisfies, halarms⟩ => ?_⟩
    · exact (hpass.not_satisfies_iff hbuilt).2 hhides (hiff.1 hpass)
    · exact (not_passable_iff hbuilt hsatisfies).2 halarms (hiff.2 hsatisfies)

/-- A schema without an `enum` and without a union is fair to a value that inherits nothing it asks for. -/
theorem fair_of_own (halone : ∀ key ∈ "enum" :: UNIONS, schema.field key = none)
    (hrequired : ∀ keys fields, schema.field "required" = some (.arr keys) → value = .obj fields →
      ∀ key, Json.str key ∈ keys → fields.lookup key = none → property fields key = none)
    (hproperties : ∀ ps fields, schema.field "properties" = some (.obj ps) → value = .obj fields →
      ∀ p ∈ ps, fields.lookup p.1 = none → property fields p.1 = none) :
    Fair value schema := by
  have hnone : ∀ key ∈ "enum" :: UNIONS, ∀ v, schema.field key ≠ some v := by
    intro key hkey v hv
    rw [halone key hkey] at hv
    cases hv
  have hempty : unionBranches schema = [] := by
    unfold unionBranches
    rw [halone "anyOf" (by decide), halone "oneOf" (by decide)]
  constructor
  · rintro ⟨⟨-, -, hpass⟩, hhides⟩
    obtain ⟨-, -, hasked, -⟩ := hpass hempty
    rcases hhides with hnot | hnot | hnot | ⟨hne, -⟩
    · exact hnot fun es h => absurd h (hnone "enum" (by decide) _)
    · exact hnot fun key hkey bs h => absurd h (hnone key (List.mem_cons_of_mem _ hkey) _)
    · refine hnot fun keys fields hfield heq key hkey => ?_
      by_contra hmissing
      have hlookup := Option.not_isSome_iff_eq_none.1 hmissing
      have hsome := hasked keys fields hfield (congrArg some heq) key hkey
      rw [hrequired keys fields hfield heq key hkey hlookup] at hsome
      cases hsome
    · exact hne hempty
  · rintro ⟨-, halarms⟩
    rcases halarms with hnot | ⟨-, ps, fields, hfield, heq, p, hp, hlookup, v, hv, -⟩
    · exact hnot fun e es h => absurd h (hnone "enum" (by decide) _)
    · rw [hproperties ps fields hfield heq p hp hlookup] at hv
      cases hv

/-- A schema that is nothing but a union with a branch is fair to every value. -/
theorem fair_of_union {key : String} (hkey : key ∈ UNIONS) {bs : List Json}
    (hfield : schema.field key = some (.arr bs)) (hbranch : bs ≠ [])
    (halone : ∀ other ∈ "enum" :: STRUCTURAL ++ UNIONS, other ≠ key → schema.field other = none) :
    Fair value schema := by
  have hbranches : unionBranches schema = bs :=
    union_alone hkey hfield fun other hother => halone other (List.mem_cons_of_mem _ hother)
  have hkeys : ∀ other ∈ "enum" :: STRUCTURAL, other ≠ key := by
    rcases List.mem_cons.1 hkey with rfl | hkey
    · decide
    · obtain rfl := List.mem_singleton.1 hkey
      decide
  have hnone : ∀ other ∈ "enum" :: STRUCTURAL, ∀ v, schema.field other ≠ some v := by
    intro other hother v hv
    rw [halone other (List.mem_append_left _ hother) (hkeys other hother)] at hv
    cases hv
  constructor
  · rintro ⟨⟨-, hpass, -⟩, hhides⟩
    rcases hhides with hnot | hnot | hnot | ⟨-, hnot⟩
    · exact hnot fun es h => absurd h (hnone "enum" (by decide) _)
    · refine hnot fun other hother cs hcs => ?_
      by_cases hsame : other = key
      · rw [hsame, hfield] at hcs
        cases hcs
        exact hbranches ▸ hpass (hbranches ▸ hbranch)
      · rw [halone other (List.mem_append_right _ hother) hsame] at hcs
        cases hcs
    · exact hnot fun keys fields h => absurd h (hnone "required" (by decide) _)
    · exact hnot ⟨fun t h => absurd h (hnone "type" (by decide) _),
        fun ps fields h => absurd h (hnone "properties" (by decide) _),
        fun items xs h => absurd h (hnone "items" (by decide) _)⟩
  · rintro ⟨-, halarms⟩
    rcases halarms with hnot | ⟨hempty, -⟩
    · exact hnot fun e es h => absurd h (hnone "enum" (by decide) _)
    · exact hbranch (hbranches ▸ hempty)

/-! #### The nodes that are reached -/

/-- A part of the value and the schema that it is to satisfy. -/
abbrev Node : Type := Json × Json

/-- The nodes that are looked at below a node: the branches of a union up to the first that the value
satisfies; or, if there is no union and the type is permitted, the properties up to the first that does
not satisfy its schema, and likewise the items. -/
inductive Next : Node → Node → Prop
  | branch {value schema b : Json} {pre post : List Json} :
      EnumSeen (some value) schema → unionBranches schema = pre ++ b :: post →
      (∀ c ∈ pre, ¬Satisfies value c) → Next (value, schema) (value, b)
  | property {schema v : Json} {fields pre post : List (JsString × Json)} {p : JsString × Json} :
      EnumSeen (some (.obj fields)) schema → unionBranches schema = [] →
      TypePermitted (some (.obj fields)) schema →
      schema.field "properties" = some (.obj (pre ++ p :: post)) →
      (∀ q ∈ pre, ∀ u, property fields q.1 = some u → Means u q.2) →
      property fields p.1 = some (some v) → Next (.obj fields, schema) (v, p.2)
  | item {schema items x : Json} {pre post : List Json} :
      EnumSeen (some (.arr (pre ++ x :: post))) schema → unionBranches schema = [] →
      TypePermitted (some (.arr (pre ++ x :: post))) schema → schema.field "items" = some items →
      (∀ y ∈ pre, Satisfies y items) → Next (.arr (pre ++ x :: post), schema) (x, items)

/-- The nodes that validation comes to, from a node on. -/
def Reached : Node → Node → Prop := Relation.ReflTransGen Next

omit [Platform] in
theorem mem_branches {schema b : Json} {pre post : List Json} (h : unionBranches schema = pre ++ b :: post) :
    b ∈ unionBranches schema := h ▸ List.mem_append_right _ List.mem_cons_self

theorem Next.built {n n' : Node} (h : Next n n') (hbuilt : Built n.2) : Built n'.2 := by
  cases h with
  | branch _ hbranches _ =>
      exact built_branch hbuilt (mem_branches hbranches)
  | property _ _ _ hfield _ _ =>
      dsimp only at hbuilt
      rw [Built] at hbuilt
      obtain ⟨-, -, -, -, -, hproperties, -⟩ := hbuilt
      obtain ⟨ps, heq, hps⟩ := hproperties _ hfield
      cases heq
      exact hps _ (List.mem_append_right _ List.mem_cons_self)
  | item _ _ _ hfield _ =>
      dsimp only at hbuilt
      rw [Built] at hbuilt
      exact hbuilt.2.2.2.2.2.2.1 _ hfield

theorem Next.size_lt {n n' : Node} (h : Next n n') : n'.2.size < n.2.size := by
  cases h with
  | branch _ hbranches _ =>
      exact size_union (mem_branches hbranches)
  | property _ _ _ hfield _ _ =>
      exact (Json.size_mem_obj (List.mem_append_right _ List.mem_cons_self)).trans (Json.size_field hfield)
  | item _ _ _ hfield _ => exact Json.size_field hfield

theorem Reached.built {n n' : Node} (h : Reached n n') (hbuilt : Built n.2) : Built n'.2 := by
  induction h with
  | refl => exact hbuilt
  | tail _ hnext ih => exact hnext.built ih

omit [Platform] in
/-- Two conditions that agree on the elements up to the first that one of them holds of. -/
theorem exists_congr_upTo {α : Type} {p q : α → Prop} {xs : List α}
    (h : ∀ pre x post, xs = pre ++ x :: post → (∀ y ∈ pre, ¬q y) → (p x ↔ q x)) :
    (∃ x ∈ xs, p x) ↔ ∃ x ∈ xs, q x := by
  induction xs with
  | nil => simp
  | cons x xs ih =>
      have hx : p x ↔ q x := h [] x xs rfl fun y hy => absurd hy List.not_mem_nil
      rw [List.exists_mem_cons_iff, List.exists_mem_cons_iff, hx]
      by_cases hq : q x
      · exact iff_of_true (Or.inl hq) (Or.inl hq)
      · refine or_congr_right (ih fun pre y post heq hpre => ?_)
        refine h (x :: pre) y post (by rw [heq]; rfl) fun z hz => ?_
        rcases List.mem_cons.1 hz with rfl | hz
        · exact hq
        · exact hpre z hz

omit [Platform] in
/-- Two conditions that agree on the elements up to the first that one of them does not hold of. -/
theorem forall_congr_upTo {α : Type} {p q : α → Prop} {xs : List α}
    (h : ∀ pre x post, xs = pre ++ x :: post → (∀ y ∈ pre, q y) → (p x ↔ q x)) :
    (∀ x ∈ xs, p x) ↔ ∀ x ∈ xs, q x := by
  have hneg : (∃ x ∈ xs, ¬p x) ↔ ∃ x ∈ xs, ¬q x :=
    exists_congr_upTo fun pre x post heq hpre =>
      not_congr (h pre x post heq fun y hy => not_not.1 (hpre y hy))
  simpa using not_congr hneg

/-- The verdict at a node whose sub-schemas get the right verdicts is what is seen there. -/
theorem passes_iff_passable (h : ∀ n, Next (value, schema) n → (Passes (some n.1) n.2 ↔ Satisfies n.1 n.2)) :
    Passes (some value) schema ↔ Passable value schema := by
  have hmeans : ∀ u s, (∀ v, u = some v → (Passes (some v) s ↔ Satisfies v s)) →
      (Passes u s ↔ Means u s) := by
    intro u s hu
    cases u with
    | none => exact Iff.rfl
    | some v => exact hu v rfl
  rw [passes_iff]
  refine and_congr_right fun henum => and_congr (imp_congr_right fun _ => ?_)
    (imp_congr_right fun hempty => and_congr_right fun htype => and_congr ?_ (and_congr_right fun _ => ?_))
  · exact exists_congr_upTo fun pre b post heq hpre => h (value, b) (.branch henum heq hpre)
  · refine forall_congr' fun ps => forall_congr' fun fields => imp_congr_right fun hfield =>
      imp_congr_right fun heq => ?_
    cases heq
    refine forall_congr_upTo fun pre p post heq hpre => forall_congr' fun u =>
      imp_congr_right fun hu => hmeans u p.2 ?_
    rintro v rfl
    subst heq
    exact h (v, p.2) (.property henum hempty htype hfield hpre hu)
  · refine forall_congr' fun items => forall_congr' fun xs => imp_congr_right fun hfield =>
      imp_congr_right fun heq => ?_
    cases heq
    refine forall_congr_upTo fun pre x post heq hpre => ?_
    subst heq
    exact h (x, items) (.item henum hempty htype hfield hpre)

/-- Every node that is reached is fair. -/
def Plain (value schema : Json) : Prop := ∀ n, Reached (value, schema) n → Fair n.1 n.2

/-- The nodes that are reached lie in any set of nodes that holds the first and all that are looked at
below one of its own. -/
theorem plain_of_closed (nodes : List Node) (hfirst : (value, schema) ∈ nodes)
    (hnext : ∀ n ∈ nodes, ∀ n', Next n n' → n' ∈ nodes) (hfair : ∀ n ∈ nodes, Fair n.1 n.2) :
    Plain value schema := by
  intro n hn
  refine hfair n ?_
  induction hn with
  | refl => exact hfirst
  | tail _ hstep ih => exact hnext _ ih _ hstep

/-- Where all nodes that are reached are fair, passing is satisfying. -/
theorem passes_iff_satisfies (hbuilt : Built schema) (hplain : Plain value schema) :
    Passes (some value) schema ↔ Satisfies value schema := by
  induction hn : schema.size using Nat.strong_induction_on generalizing value schema with
  | _ n ih =>
      have hfair := (fair_iff hbuilt).1 (hplain (value, schema) .refl)
      refine (passes_iff_passable fun n' hnext => ?_).trans hfair
      have hlt := hnext.size_lt
      dsimp only at hlt
      exact ih n'.2.size (by omega) (hnext.built hbuilt) (fun m hm => hplain m (.head hnext hm)) rfl

/-- All nodes that are reached are fair exactly if they all get the verdict that the keywords mean. -/
theorem plain_iff (hbuilt : Built schema) : Plain value schema ↔
    ∀ n, Reached (value, schema) n → (Passes (some n.1) n.2 ↔ Satisfies n.1 n.2) := by
  constructor
  · intro hplain n hn
    exact passes_iff_satisfies (hn.built hbuilt) fun m hm => hplain m (hn.trans hm)
  · intro hright n hn
    have hpass := passes_iff_passable fun m hm => hright m (hn.tail hm)
    exact (fair_iff (hn.built hbuilt)).2 (hpass.symm.trans (hright n hn))

end

/-- Strict validation finds nothing. -/
def Accepted (value schema : Json) : Prop :=
  ∃ st, validateSchemaSubset true value schema = .ok (none, st)

theorem accepted_iff_passes (value : Json) {schema : Json} (h : Built schema) :
    Accepted value schema ↔ Passes (some value) schema := by
  have hverdict : Verdict ((validateAt schema.size true (some value) schema (js "$")).run {})
      (Passes (some value) schema) := verdict_validateAt h (Nat.le_refl _) (js "$")
  obtain ⟨found, st, hrun, hfound⟩ := hverdict
  rw [← hfound]
  unfold Accepted validateSchemaSubset
  rw [hrun]
  constructor
  · intro haccept
    obtain ⟨st', heq⟩ := haccept
    cases heq
    rfl
  · intro hnone
    exact ⟨st, by rw [hnone]⟩

/-- **When strict validation is the meaning of the keywords.**  For a schema that is built from them, the
verdicts at all nodes that are reached are what the keywords mean exactly if nothing is hidden and no alarm
is false at one of them, where that would decide; and then a value is accepted exactly if it satisfies the
schema. -/
theorem strict_validation_means (value schema : Json) (h : Built schema) :
    (Plain value schema → (Accepted value schema ↔ Satisfies value schema)) ∧
    (Plain value schema ↔
      ∀ n, Reached (value, schema) n → (Accepted n.1 n.2 ↔ Satisfies n.1 n.2)) := by
  refine ⟨fun hplain => ?_, ?_⟩
  · rw [accepted_iff_passes value h]
    exact passes_iff_satisfies h hplain
  · rw [plain_iff h]
    exact forall_congr' fun n => imp_congr_right fun hn => by
      rw [accepted_iff_passes n.1 (hn.built h)]

end

/-! ### Samples -/

namespace Sample

def nothing : Json := .obj [(js "type", .str (js "null"))]

def text : Json := .obj [(js "type", .str (js "string"))]

/-- An object that has a text as its `id`. -/
def named : Json :=
  .obj [(js "type", .str (js "object")), (js "properties", .obj [(js "id", text)]),
    (js "required", .arr [.str (js "id")])]

/-- Nothing, or an object with an `id`. -/
def maybeNamed : Json := .obj [(js "anyOf", .arr [nothing, named])]

def withText : Json := .obj [(js "id", .str (js "x"))]

/-- An object, in one of several variants, with an `id`. -/
def withId : Json :=
  .obj [(js "anyOf", .arr [.obj [(js "type", .str (js "object"))]]),
    (js "required", .arr [.str (js "id")])]

/-- Such an object, or any. -/
def withoutId : Json := .obj [(js "anyOf", .arr [withId, .obj [(js "type", .str (js "object"))]])]

end Sample

theorem built_absent {v : Option Json} {p : Json → Prop} (h : v = none) : ∀ w, v = some w → p w := by
  intro w hsome
  rw [h] at hsome
  cases hsome

theorem built_type {name : JsString} : Built (.obj [(js "type", .str name)]) := by
  rw [Built]
  refine ⟨⟨_, rfl⟩, built_absent rfl, fun t ht v hv => ?_, built_absent rfl, built_absent rfl,
    built_absent rfl, built_absent rfl, fun key hkey => ?_⟩
  · cases ht
    exact ⟨name, List.mem_singleton.1 hv⟩
  · rcases List.mem_cons.1 hkey with rfl | hkey
    · exact built_absent rfl
    · obtain rfl := List.mem_singleton.1 hkey
      exact built_absent rfl

theorem satisfies_type {value : Json} {name : JsString} (h : HasType value name) :
    Satisfies value (.obj [(js "type", .str name)]) := by
  rw [satisfies_iff]
  refine ⟨fun es h => (by cases h), fun t ht => ?_, fun keys fields h => (by cases h),
    fun ps fields h => (by cases h), fun items xs h => (by cases h), fun key hkey => ?_⟩
  · cases ht
    exact Or.inl ⟨name, List.mem_singleton_self _, h⟩
  · rcases List.mem_cons.1 hkey with rfl | hkey
    · exact fun bs h => by cases h
    · obtain rfl := List.mem_singleton.1 hkey
      exact fun bs h => by cases h

theorem fair_type [Platform] {value : Json} {name : JsString} :
    Fair value (.obj [(js "type", .str name)]) :=
  fair_of_own (List.forall_mem_cons.2 ⟨rfl, List.forall_mem_cons.2 ⟨rfl, List.forall_mem_singleton.2 rfl⟩⟩)
    (fun keys fields h => (by cases h)) fun ps fields h => (by cases h)

theorem next_type [Platform] {value : Json} {name : JsString} (n : Node) :
    ¬Next (value, .obj [(js "type", .str name)]) n := by
  intro h
  cases h with
  | branch _ hbranches _ => exact absurd (mem_branches hbranches) List.not_mem_nil
  | property _ _ _ hfield _ _ => cases hfield
  | item _ _ _ hfield _ => cases hfield

theorem built_anyOf {bs : List Json} (h : ∀ b ∈ bs, Built b) : Built (.obj [(js "anyOf", .arr bs)]) := by
  rw [Built]
  refine ⟨⟨_, rfl⟩, built_absent rfl, built_absent rfl, built_absent rfl, built_absent rfl,
    built_absent rfl, built_absent rfl, fun key hkey => ?_⟩
  rcases List.mem_cons.1 hkey with rfl | hkey
  · intro v hv
    cases hv
    exact ⟨bs, rfl, h⟩
  · obtain rfl := List.mem_singleton.1 hkey
    exact built_absent rfl

theorem withId_built : Built Sample.withId := by
  rw [Built]
  refine ⟨⟨_, rfl⟩, built_absent rfl, built_absent rfl, built_absent rfl, fun v hv => ⟨[js "id"], ?_⟩,
    built_absent rfl, built_absent rfl, fun key hkey => ?_⟩
  · cases hv
    rfl
  · rcases List.mem_cons.1 hkey with rfl | hkey
    · intro v hv
      cases hv
      refine ⟨_, rfl, fun b hb => ?_⟩
      rw [List.mem_singleton.1 hb]
      exact built_type
    · obtain rfl := List.mem_singleton.1 hkey
      exact built_absent rfl

theorem named_built : Built Sample.named := by
  rw [Built]
  refine ⟨⟨_, rfl⟩, built_absent rfl, fun t ht v hv => ?_, built_absent rfl,
    fun v hv => ⟨[js "id"], ?_⟩, fun v hv => ?_, built_absent rfl, fun key hkey => ?_⟩
  · cases ht
    exact ⟨js "object", List.mem_singleton.1 hv⟩
  · cases hv
    rfl
  · cases hv
    refine ⟨_, rfl, fun p hp => ?_⟩
    rw [List.mem_singleton.1 hp]
    exact built_type
  · rcases List.mem_cons.1 hkey with rfl | hkey
    · exact built_absent rfl
    · obtain rfl := List.mem_singleton.1 hkey
      exact built_absent rfl

theorem withId_unequal [Platform] :
    Passes (some (.obj [])) Sample.withId ∧ ¬Satisfies (.obj []) Sample.withId := by
  have hbranch : Passes (some (.obj [])) (.obj [(js "type", .str (js "object"))]) := by
    rw [passes_iff]
    refine ⟨fun e es h => (by cases h), fun h => absurd rfl h, fun _ => ⟨fun t ht => ?_, ?_⟩⟩
    · cases ht
      exact Or.inl (by decide)
    · exact ⟨fun ps fields h => (by cases h), fun keys fields h => (by cases h),
        fun items xs h => (by cases h)⟩
  constructor
  · rw [passes_iff]
    refine ⟨fun e es h => (by cases h), fun _ => ⟨_, List.mem_singleton_self _, hbranch⟩, fun h => ?_⟩
    cases h
  · intro hsatisfies
    rw [Satisfies] at hsatisfies
    have hid := hsatisfies.2.2.1 [.str (js "id")] [] rfl rfl (js "id") (List.mem_singleton_self _)
    cases hid

/-- **A property that is required beside a union is not asked for.** -/
theorem union_hides_required : letI := Sample.platform
    ¬∀ value schema, Built schema → (Accepted value schema ↔ Satisfies value schema) := by
  let := Sample.platform
  intro h
  obtain ⟨hpasses, hnot⟩ := withId_unequal
  have haccepted := (accepted_iff_passes (.obj []) withId_built).2 hpasses
  exact hnot ((h (.obj []) Sample.withId withId_built).1 haccepted)

/-- One wrong verdict may make up for another: a branch that is accepted although it hides what is violated
stands before one that is satisfied. -/
theorem withoutId_made_up : letI := Sample.platform
    (Accepted (.obj []) Sample.withoutId ↔ Satisfies (.obj []) Sample.withoutId) ∧
      ¬Plain (.obj []) Sample.withoutId := by
  let := Sample.platform
  obtain ⟨hpasses, hnot⟩ := withId_unequal
  have hbuilt : Built Sample.withoutId := built_anyOf fun b hb => by
    rcases List.mem_cons.1 hb with rfl | hb
    · exact withId_built
    · rw [List.mem_singleton.1 hb]
      exact built_type
  have hnext : Next (.obj [], Sample.withoutId) (.obj [], Sample.withId) :=
    by
    refine @Next.branch _ _ _ _ [] _ (fun e es h => by cases h) rfl fun c hc => ?_
    cases hc
  refine ⟨iff_of_true ⟨_, rfl⟩ ?_, fun hplain => ?_⟩
  · rw [satisfies_iff]
    refine ⟨fun es h => (by cases h), fun t h => (by cases h), fun keys fields h => (by cases h),
      fun ps fields h => (by cases h), fun items xs h => (by cases h), fun key hkey bs h => ?_⟩
    rcases List.mem_cons.1 hkey with rfl | hkey
    · cases h
      exact ⟨_, List.mem_cons_of_mem _ (List.mem_singleton_self _), satisfies_type rfl⟩
    · obtain rfl := List.mem_singleton.1 hkey
      cases h
  · exact hnot (((plain_iff hbuilt).1 hplain _ (.single hnext)).1 hpasses)

namespace Sample

/-- What is looked at of the object with a text. -/
def looked : List Node := [(withText, maybeNamed), (withText, nothing), (withText, named), (.str (js "x"), text)]

end Sample

theorem maybeNamed_plain [Platform] : Plain Sample.withText Sample.maybeNamed := by
  have hid : ∀ fields, Sample.withText = .obj fields → ∀ key, key = js "id" →
      fields.lookup key ≠ none := by
    rintro fields heq key rfl hlookup
    cases heq
    cases hlookup
  refine plain_of_closed Sample.looked List.mem_cons_self ?_ ?_
  · intro n hn n' hnext
    simp only [Sample.looked, List.mem_cons, List.not_mem_nil, or_false] at hn
    rcases hn with rfl | rfl | rfl | rfl
    · cases hnext with
      | branch _ hbranches _ =>
          rcases List.mem_cons.1 (mem_branches hbranches) with rfl | hb
          · exact List.mem_cons_of_mem _ List.mem_cons_self
          · obtain rfl := List.mem_singleton.1 hb
            exact List.mem_cons_of_mem _ (List.mem_cons_of_mem _ List.mem_cons_self)
      | property _ hempty _ _ _ _ => cases hempty
    · exact absurd hnext (next_type n')
    · cases hnext with
      | branch _ hbranches _ => exact absurd (mem_branches hbranches) List.not_mem_nil
      | @property _ v _ pre post p _ _ _ hfield _ hv =>
          have hps : [(js "id", Sample.text)] = pre ++ p :: post := Json.obj.inj (Option.some.inj hfield)
          have hp : p ∈ [(js "id", Sample.text)] := hps ▸ List.mem_append_right _ List.mem_cons_self
          obtain rfl := List.mem_singleton.1 hp
          cases hv
          exact List.mem_of_mem_getLast? rfl
    · exact absurd hnext (next_type n')
  · intro n hn
    simp only [Sample.looked, List.mem_cons, List.not_mem_nil, or_false] at hn
    rcases hn with rfl | rfl | rfl | rfl
    · exact fair_of_union (show "anyOf" ∈ UNIONS by decide) rfl (by decide) (by decide)
    · exact fair_type
    · refine fair_of_own (by decide) ?_ ?_
      · intro keys fields hfield heq key hkey hlookup
        cases hfield
        cases List.mem_singleton.1 hkey
        exact absurd hlookup (hid fields heq _ rfl)
      · intro ps fields hfield heq p hp hlookup
        cases hfield
        cases List.mem_singleton.1 hp
        exact absurd hlookup (hid fields heq _ rfl)
    · exact fair_type

/-- An object with a text as its `id` is accepted, which is what the schema means. -/
theorem maybeNamed_means : letI := Sample.platform
    Satisfies Sample.withText Sample.maybeNamed := by
  let := Sample.platform
  have hbuilt : Built Sample.maybeNamed := built_anyOf fun b hb => by
    rcases List.mem_cons.1 hb with rfl | hb
    · exact built_type
    · rw [List.mem_singleton.1 hb]
      exact named_built
  exact ((strict_validation_means Sample.withText Sample.maybeNamed hbuilt).1 maybeNamed_plain).1 ⟨_, rfl⟩

end VibeRouter
