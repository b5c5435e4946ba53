import VibeRouter.Gateway.Subset

/-! # Unions and the order of properties

In structural mode a branch of a union is authoritative when the value fails it after satisfying an
`enum` of it and missing none: what counts is what is checked before the first failure.  `Meets` is
structural acceptance where only what counts in every order does (`Claimed`).  `Orderly` says that no union
is left to what a branch has counted when it fails at a property or an item, `ReadableAt` that no
`required` is read that is no list.  Then validation accepts what fits (`reports_validateAt`). -/

namespace VibeRouter

/-- The properties and `required` of a schema are looked at. -/
def readsObject (schema : Json) : Bool :=
  (schema.field "properties").any Json.truthy || (schema.field "required").any Json.truthy

section
variable [Platform]

/-! ### What validation looks at -/

/-- The value is a member of the `enum`. -/
def EnumMet (value : Subject) (schema : Json) : Prop :=
  ∃ es, schema.field "enum" = some (.arr es) ∧ es.any (sameJson value) = true

/-- The value is no member of an `enum` that is not empty. -/
def EnumMissed (value : Subject) (schema : Json) : Prop :=
  ∃ e es, schema.field "enum" = some (.arr (e :: es)) ∧ (e :: es).any (sameJson value) = false

/-- The values nested in a value that are checked, each with its schema; there are none beside a union, or
when the type is not permitted. -/
def parts (value : Subject) (schema : Json) : List (Subject × Json) :=
  if unionBranches schema ≠ [] ∨ checkType value schema [] ≠ none then []
  else match value with
  | some (.obj fields) =>
      if readsObject schema then (presentProperties fields schema).map Prod.snd else []
  | some (.arr xs) => match (schema.field "items").filter Json.truthy with
      | some items => xs.map fun x => (some x, items)
      | none => []
  | _ => []

/-- The required properties of an object are there. -/
def RequiredMet (value : Subject) (schema : Json) : Prop :=
  ∀ fields, value = some (.obj fields) → readsObject schema = true →
    ∃ keys, requiredKeys schema = .ok keys ∧ ∀ key ∈ keys, (property fields key).isSome = true

omit [Platform] in
theorem size_entry {v : Json} {p : JsString × Json} (h : p ∈ objectEntries v) : p.2.size ≤ v.size := by
  cases v with
  | obj es => exact Nat.le_of_lt (Json.size_mem_obj h)
  | arr xs =>
      obtain ⟨x, hx, rfl⟩ := List.mem_map.1 h
      exact Nat.le_of_lt (Json.size_mem_arr (List.fst_mem_of_mem_zipIdx hx))
  | str s =>
      obtain ⟨x, hx, rfl⟩ := List.mem_map.1 h
      exact Nat.le_refl _
  | null => cases h
  | bool b => cases h
  | num n => cases h

omit [Platform] in
theorem size_present {fields : List (JsString × Json)} {schema : Json} {q : JsString × Subject × Json}
    (h : q ∈ presentProperties fields schema) : q.2.2.size < schema.size := by
  unfold presentProperties at h
  cases hfield : schema.field "properties" with
  | none =>
      rw [hfield] at h
      cases h
  | some v =>
      rw [hfield] at h
      obtain ⟨p, hp, hmap⟩ := List.mem_filterMap.1 h
      obtain ⟨w, -, rfl⟩ := Option.map_eq_some_iff.1 hmap
      exact Nat.lt_of_le_of_lt (size_entry hp) (Json.size_field hfield)

theorem size_part {value : Subject} {schema : Json} {part : Subject × Json}
    (h : part ∈ parts value schema) : part.2.size < schema.size := by
  unfold parts at h
  split at h
  · cases h
  split at h
  · split at h
    · obtain ⟨q, hq, rfl⟩ := List.mem_map.1 h
      exact size_present hq
    · cases h
  · split at h
    · next items hitems =>
      obtain ⟨x, -, rfl⟩ := List.mem_map.1 h
      exact Json.size_field (Option.filter_eq_some_iff.1 hitems).1
    · cases h
  · cases h

theorem parts_of_union {value : Subject} {schema : Json} (h : unionBranches schema ≠ []) :
    parts value schema = [] := by
  unfold parts
  rw [if_pos (Or.inl h)]

/-! ### What fits, whatever the order -/

/-- The value passes, and misses no `enum`. -/
def Clean (value : Subject) (schema : Json) : Prop :=
  ¬EnumMissed value schema ∧
  (unionBranches schema ≠ [] → ∃ b, ∃ _ : b ∈ unionBranches schema, Clean value b) ∧
  (unionBranches schema = [] → TypePermitted value schema ∧
    (∀ part, ∀ _ : part ∈ parts value schema, Clean part.1 part.2) ∧ RequiredMet value schema)
termination_by schema.size
decreasing_by
  · exact size_union ‹b ∈ unionBranches schema›
  · exact size_part ‹part ∈ parts value schema›

/-- The value, or a value nested in it, satisfies an `enum` outside of a union. -/
def Hit (value : Subject) (schema : Json) : Prop :=
  EnumMet value schema ∨ ∃ part, ∃ _ : part ∈ parts value schema, Hit part.1 part.2
termination_by schema.size
decreasing_by exact size_part ‹part ∈ parts value schema›

/-- Validation may miss an `enum` of the schema, or of a part of the value; of a union it may if the value
passes no branch without a miss. -/
def MayMiss (value : Subject) (schema : Json) : Prop :=
  EnumMissed value schema ∨
  (unionBranches schema ≠ [] ∧ ¬∃ b ∈ unionBranches schema, Clean value b) ∨
  ∃ part, ∃ _ : part ∈ parts value schema, MayMiss part.1 part.2
termination_by schema.size
decreasing_by exact size_part ‹part ∈ parts value schema›

/-- The value identifies itself as the branch in every order: no `enum` may be missed, and one is
satisfied, by the value itself or else by every part that does not pass. -/
def Claimed (value : Subject) (branch : Json) : Prop :=
  ¬EnumMissed value branch ∧ (∀ part ∈ parts value branch, ¬MayMiss part.1 part.2) ∧
  Hit value branch ∧
  (EnumMet value branch ∨ ∀ part ∈ parts value branch, Clean part.1 part.2 ∨ EnumMet part.1 part.2)

/-- The value passes when an `enum` may be missed; but it must fit every branch of a union that it
identifies itself as, unless it passes one without a miss. -/
def Meets (value : Subject) (schema : Json) : Prop :=
  (unionBranches schema ≠ [] → (∃ b ∈ unionBranches schema, Clean value b) ∨
    ((∃ b, ∃ _ : b ∈ unionBranches schema, Meets value b) ∧
      ∀ b, ∀ _ : b ∈ unionBranches schema, Meets value b ∨ ¬Claimed value b)) ∧
  (unionBranches schema = [] → TypePermitted value schema ∧
    (∀ part, ∀ _ : part ∈ parts value schema, Meets part.1 part.2) ∧ RequiredMet value schema)
termination_by schema.size
decreasing_by
  · exact size_union ‹b ∈ unionBranches schema›
  · exact size_union ‹b ∈ unionBranches schema›
  · exact size_part ‹part ∈ parts value schema›

/-- The names of `required` can be read where they are. -/
def Iterable (value : Subject) (schema : Json) : Prop :=
  ∀ fields, value = some (.obj fields) → readsObject schema = true → ∃ keys, requiredKeys schema = .ok keys

/-- `required` can be read wherever validation comes to it, which is where all parts fit. -/
def ReadableAt (value : Subject) (schema : Json) : Prop :=
  (unionBranches schema = [] → TypePermitted value schema →
    (∀ part ∈ parts value schema, Meets part.1 part.2) → Iterable value schema) ∧
  (∀ part, ∀ _ : part ∈ parts value schema, ReadableAt part.1 part.2) ∧
  ∀ b, ∀ _ : b ∈ unionBranches schema, ReadableAt value b
termination_by schema.size
decreasing_by
  · exact size_part ‹part ∈ parts value schema›
  · exact size_union ‹b ∈ unionBranches schema›

/-- An `enum` can be counted without a miss: that of the value itself, or one of a part that does not pass
with a miss. -/
def Countable (value : Subject) (schema : Json) : Prop :=
  ¬EnumMissed value schema ∧ (EnumMet value schema ∨ ∃ part, ∃ _ : part ∈ parts value schema,
    Countable part.1 part.2 ∧ (Meets part.1 part.2 → Clean part.1 part.2))
termination_by schema.size
decreasing_by exact size_part ‹part ∈ parts value schema›

/-- The value identifies itself as the branch in no order: no `enum` can be counted without a miss, or some
part does not pass without a miss and each that does not fit misses its own `enum`. -/
def Unclaimed (value : Subject) (branch : Json) : Prop :=
  ¬Countable value branch ∨
  ((∃ part ∈ parts value branch, ¬Clean part.1 part.2) ∧
    ∀ part ∈ parts value branch, Meets part.1 part.2 ∨ EnumMissed part.1 part.2)

/-- The verdict of a union that no branch passes without a miss does not hang on the order: no branch fits,
or the value identifies itself in every order as a branch that it does not fit, or in no order as any
such branch. -/
def UnionDecided (value : Subject) (branches : List Json) : Prop :=
  (∀ b ∈ branches, ¬Meets value b) ∨
  (∃ b ∈ branches, Claimed value b ∧ ¬Meets value b) ∨
  ∀ b ∈ branches, Meets value b ∨ Unclaimed value b

/-- Every union that is looked at with its branches one by one is decided.  That is not done if some
branch passes without a miss. -/
def Orderly (value : Subject) (schema : Json) : Prop :=
  (∀ part, ∀ _ : part ∈ parts value schema, Orderly part.1 part.2) ∧
  ((∃ b ∈ unionBranches schema, Clean value b) ∨
    ((∀ b, ∀ _ : b ∈ unionBranches schema, Orderly value b) ∧ UnionDecided value (unionBranches schema)))
termination_by schema.size
decreasing_by
  · exact size_part ‹part ∈ parts value schema›
  · exact size_union ‹b ∈ unionBranches schema›

theorem clean_iff {value : Subject} {schema : Json} : Clean value schema ↔
    ¬EnumMissed value schema ∧ (unionBranches schema ≠ [] → ∃ b ∈ unionBranches schema, Clean value b) ∧
    (unionBranches schema = [] → TypePermitted value schema ∧
      (∀ part ∈ parts value schema, Clean part.1 part.2) ∧ RequiredMet value schema) := by
  rw [Clean]
  simp only [exists_prop]

theorem hit_iff {value : Subject} {schema : Json} :
    Hit value schema ↔ EnumMet value schema ∨ ∃ part ∈ parts value schema, Hit part.1 part.2 := by
  rw [Hit]
  simp only [exists_prop]

theorem mayMiss_iff {value : Subject} {schema : Json} : MayMiss value schema ↔
    EnumMissed value schema ∨
    (unionBranches schema ≠ [] ∧ ¬∃ b ∈ unionBranches schema, Clean value b) ∨
    ∃ part ∈ parts value schema, MayMiss part.1 part.2 := by
  rw [MayMiss]
  simp only [exists_prop]

theorem meets_iff {value : Subject} {schema : Json} : Meets value schema ↔
    (unionBranches schema ≠ [] → (∃ b ∈ unionBranches schema, Clean value b) ∨
      ((∃ b ∈ unionBranches schema, Meets value b) ∧
        ∀ b ∈ unionBranches schema, Meets value b ∨ ¬Claimed value b)) ∧
    (unionBranches schema = [] → TypePermitted value schema ∧
      (∀ part ∈ parts value schema, Meets part.1 part.2) ∧ RequiredMet value schema) := by
  rw [Meets]
  simp only [exists_prop]

theorem readableAt_iff {value : Subject} {schema : Json} : ReadableAt value schema ↔
    (unionBranches schema = [] → TypePermitted value schema →
      (∀ part ∈ parts value schema, Meets part.1 part.2) → Iterable value schema) ∧
    (∀ part ∈ parts value schema, ReadableAt part.1 part.2) ∧
    ∀ b ∈ unionBranches schema, ReadableAt value b := by
  rw [ReadableAt]

theorem orderly_iff {value : Subject} {schema : Json} : Orderly value schema ↔
    (∀ part ∈ parts value schema, Orderly part.1 part.2) ∧
    ((∃ b ∈ unionBranches schema, Clean value b) ∨
      ((∀ b ∈ unionBranches schema, Orderly value b) ∧ UnionDecided value (unionBranches schema))) := by
  rw [Orderly]

theorem Clean.meets {value : Subject} {schema : Json} (h : Clean value schema) :
    Meets value schema := by
  induction hsize : schema.size using Nat.strongRecOn generalizing value schema with
  | ind n ih =>
      obtain ⟨-, hbranch, hrest⟩ := clean_iff.1 h
      rw [meets_iff]
      refine ⟨fun hunion => Or.inl (hbranch hunion), fun hunion => ?_⟩
      obtain ⟨htype, hparts, hrequired⟩ := hrest hunion
      exact ⟨htype, fun part hpart => ih _ (hsize ▸ size_part hpart) (hparts part hpart) rfl, hrequired⟩

theorem Clean.not_mayMiss {value : Subject} {schema : Json} (h : Clean value schema) :
    ¬MayMiss value schema := by
  induction hsize : schema.size using Nat.strongRecOn generalizing value schema with
  | ind n ih =>
      obtain ⟨hmet, hbranch, hrest⟩ := clean_iff.1 h
      rw [mayMiss_iff]
      rintro (hmissed | ⟨hunion, hnone⟩ | ⟨part, hpart, hmiss⟩)
      · exact hmet hmissed
      · exact hnone (hbranch hunion)
      · have hunion : unionBranches schema = [] := by
          by_contra hunion
          rw [parts_of_union hunion] at hpart
          cases hpart
        exact ih _ (hsize ▸ size_part hpart) ((hrest hunion).2.1 part hpart) rfl hmiss

/-- What fits and misses nothing passes. -/
theorem Meets.clean {value : Subject} {schema : Json} (h : Meets value schema)
    (hmiss : ¬MayMiss value schema) : Clean value schema := by
  induction hsize : schema.size using Nat.strongRecOn generalizing value schema with
  | ind n ih =>
      rw [mayMiss_iff, not_or, not_or, not_and, not_not, not_exists] at hmiss
      obtain ⟨hmet, hbranch, hparts⟩ := hmiss
      rw [clean_iff]
      refine ⟨hmet, hbranch, fun hunion => ?_⟩
      obtain ⟨htype, hfits, hrequired⟩ := (meets_iff.1 h).2 hunion
      refine ⟨htype, fun part hpart => ?_, hrequired⟩
      exact ih _ (hsize ▸ size_part hpart) (hfits part hpart) (fun h => hparts part ⟨hpart, h⟩) rfl

theorem EnumMet.not_missed {value : Subject} {schema : Json} (h : EnumMet value schema) :
    ¬EnumMissed value schema := by
  obtain ⟨es, hfield, hany⟩ := h
  rintro ⟨e, es', hfield', hany'⟩
  rw [hfield] at hfield'
  cases hfield'
  rw [hany] at hany'
  cases hany'

theorem countable_iff {value : Subject} {schema : Json} : Countable value schema ↔
    ¬EnumMissed value schema ∧ (EnumMet value schema ∨ ∃ part ∈ parts value schema,
      Countable part.1 part.2 ∧ (Meets part.1 part.2 → Clean part.1 part.2)) := by
  rw [Countable]
  simp only [exists_prop]

theorem Countable.hit {value : Subject} {schema : Json} (h : Countable value schema) :
    Hit value schema := by
  induction hsize : schema.size using Nat.strongRecOn generalizing value schema with
  | ind n ih =>
      rw [hit_iff]
      obtain ⟨-, hmet | ⟨part, hpart, hcountable, -⟩⟩ := countable_iff.1 h
      · exact Or.inl hmet
      · exact Or.inr ⟨part, hpart, ih _ (hsize ▸ size_part hpart) hcountable rfl⟩

/-- Where every part passes without a miss, all that is satisfied counts. -/
theorem Hit.countable {value : Subject} {schema : Json} (h : Hit value schema)
    (hmet : ¬EnumMissed value schema) (hclean : ∀ part ∈ parts value schema, Clean part.1 part.2) :
    Countable value schema := by
  induction hsize : schema.size using Nat.strongRecOn generalizing value schema with
  | ind n ih =>
      rw [countable_iff]
      refine ⟨hmet, (hit_iff.1 h).imp_right fun hpart => ?_⟩
      obtain ⟨part, hpart, hhit⟩ := hpart
      refine ⟨part, hpart, ?_, fun _ => hclean part hpart⟩
      obtain ⟨hpartMet, -, hrest⟩ := clean_iff.1 (hclean part hpart)
      refine ih _ (hsize ▸ size_part hpart) hhit hpartMet (fun sub hsub => ?_) rfl
      refine (hrest ?_).2.1 sub hsub
      by_contra hunion
      rw [parts_of_union hunion] at hsub
      cases hsub

/-! ### A schema as the check of its parts -/

/-- The check of `required`, for an object. -/
def requiredCheck (value : Subject) (schema : Json) (path : JsString) : Check :=
  match value with
  | some (.obj fields) => if readsObject schema then checkRequired fields schema path else pure none
  | _ => pure none

omit [Platform] in
theorem andThen_none (c : Check) : andThen c (pure none) = c := by
  unfold andThen
  refine Eq.trans (congrArg (c >>= ·) (funext fun found => ?_)) (bind_pure c)
  cases found <;> rfl

/-- What is nested in a value is checked part by part, and then the required properties. -/
theorem checkNested_parts {value : Subject} {schema : Json} (hunion : unionBranches schema = [])
    (htype : checkType value schema [] = none) (path : JsString) :
    ∃ located : List ((Subject × Json) × JsString), located.map Prod.fst = parts value schema ∧
      ∀ n strict, checkNested n strict value schema path =
        andThen (firstBad (located.map fun l => validateAt n strict l.1.1 l.1.2 l.2))
          (requiredCheck value schema path) := by
  have hlooks : ¬(unionBranches schema ≠ [] ∨ checkType value schema [] ≠ none) := by
    rw [not_or, not_not, not_not]
    exact ⟨hunion, htype⟩
  have hnone : ∃ located : List ((Subject × Json) × JsString), located.map Prod.fst = [] ∧
      ∀ n strict, (pure none : Check) =
        andThen (firstBad (located.map fun l => validateAt n strict l.1.1 l.1.2 l.2)) (pure none) :=
    ⟨[], rfl, fun _ _ => (andThen_none _).symm⟩
  unfold parts checkNested requiredCheck
  rw [if_neg hlooks]
  cases value with
  | none => exact hnone
  | some v =>
      cases v with
      | obj fields =>
          dsimp only
          show ∃ located : List ((Subject × Json) × JsString), _ ∧ ∀ n strict,
            (if readsObject schema = true then _ else _) = _
          cases readsObject schema with
          | false => exact hnone
          | true =>
              refine ⟨(presentProperties fields schema).map fun q =>
                (q.2, path ++ js "." ++ q.1), ?_, fun n strict => ?_⟩
              · rw [List.map_map]
                rfl
              · rw [List.map_map]
                rfl
      | arr xs =>
          dsimp only
          cases (schema.field "items").filter Json.truthy with
          | none => exact hnone
          | some items =>
              refine ⟨xs.zipIdx.map fun x =>
                ((some x.1, items), path ++ js "[" ++ js (toString x.2) ++ js "]"), ?_, fun n strict => ?_⟩
              · rw [List.map_map]
                have hfst : xs.zipIdx.map Prod.fst = xs := List.zipIdx_map_fst 0 xs
                calc xs.zipIdx.map (Prod.fst ∘ fun x =>
                        ((some x.1, items), path ++ js "[" ++ js (toString x.2) ++ js "]"))
                    = (xs.zipIdx.map Prod.fst).map fun x => (some x, items) := by
                      rw [List.map_map]
                      rfl
                  _ = xs.map fun x => (some x, items) := by rw [hfst]
              · rw [List.map_map, andThen_none]
                rfl
      | null => exact hnone
      | bool b => exact hnone
      | num n => exact hnone
      | str s => exact hnone

theorem adds_requiredCheck (value : Subject) (schema : Json) (path : JsString) :
    Adds (requiredCheck value schema path) := by
  unfold requiredCheck
  split
  · split
    · exact adds_checkRequired _ schema path
    · exact adds_pure none
  · exact adds_pure none

theorem requiredCheck_run {value : Subject} {schema : Json} (h : Iterable value schema)
    (path : JsString) : ∃ found, (requiredCheck value schema path).run {} = .ok (found, {}) ∧
      (found = none ↔ RequiredMet value schema) := by
  unfold requiredCheck RequiredMet
  split
  · next fields =>
      split
      · next hreads =>
          obtain ⟨keys, hkeys⟩ := h fields rfl hreads
          unfold checkRequired
          rw [hkeys]
          refine ⟨_, rfl, ?_⟩
          rw [List.findSome?_eq_none_iff]
          constructor
          · intro hall fields' heq _
            cases heq
            refine ⟨keys, rfl, fun key hkey => ?_⟩
            by_contra hnot
            have := hall key hkey
            rw [if_neg hnot] at this
            cases this
          · intro hmet key hkey
            obtain ⟨keys', heq, hall⟩ := hmet fields rfl hreads
            cases heq
            exact if_pos (hall key hkey)
      · next hreads =>
          refine ⟨none, rfl, fun _ fields' heq hreads' => absurd hreads' hreads, fun _ => rfl⟩
  · next hobj => exact ⟨none, rfl, fun _ fields heq => absurd heq (hobj fields), fun _ => rfl⟩

theorem parts_of_type {value : Subject} {schema : Json} (h : ¬TypePermitted value schema) :
    parts value schema = [] := by
  unfold parts
  rw [if_pos (Or.inr fun htype => h ((checkType_verdict value schema []).1 htype))]

/-! ### Strict validation -/

theorem verdict_enum (value : Subject) (schema : Json) (path : JsString) :
    Verdict ((checkEnum true value schema path).run {}) (¬EnumMissed value schema) := by
  refine (verdict_checkEnum value schema path).congr ?_
  unfold EnumMissed
  constructor
  · intro h hmissed
    obtain ⟨e, es, hfield, hany⟩ := hmissed
    rw [h e es hfield] at hany
    cases hany
  · intro h e es hfield
    cases hany : (e :: es).any (sameJson value) with
    | true => rfl
    | false => exact absurd ⟨e, es, hfield, hany⟩ h

omit [Platform] in
/-- What is checked only if nothing has been found. -/
theorem Verdict.andThen_of {o o' : Checked} {p q : Prop} (h : Verdict o p) (h' : p → Verdict o' q) :
    Verdict (Checked.andThen o o') (p ∧ q) := by
  by_cases hp : p
  · exact h.andThen (h' hp)
  · obtain ⟨found, st, rfl, hfound⟩ := h
    obtain ⟨bad, rfl⟩ := Option.ne_none_iff_exists'.1 fun heq => hp (hfound.1 heq)
    exact ⟨some bad, st, rfl, fun heq => (by cases heq), fun h => absurd h.1 hp⟩

/-- Strict validation passes what is clean. -/
theorem verdict_clean {n : ℕ} {value : Subject} {schema : Json} (h : ReadableAt value schema)
    (hn : schema.size ≤ n) (path : JsString) :
    Verdict ((validateAt n true value schema path).run {}) (Clean value schema) := by
  induction n generalizing value schema path with
  | zero =>
      have := Json.size_pos schema
      omega
  | succ n ih =>
      obtain ⟨hiterable, hparts, hbranches⟩ := readableAt_iff.1 h
      rw [validateAt_succ, clean_iff]
      by_cases hunion : unionBranches schema = []
      · rw [if_neg (not_not.2 hunion)]
        have hnested := adds_checkNested n true value schema path
        rw [run_andThen ((adds_pure _).andThen hnested), run_andThen hnested]
        have hrest : Verdict (Checked.andThen ((pure (checkType value schema path) : Check).run {})
            ((checkNested n true value schema path).run {})) (TypePermitted value schema ∧
              (∀ part ∈ parts value schema, Clean part.1 part.2) ∧ RequiredMet value schema) := by
          cases htype : checkType value schema path with
          | some bad =>
              refine ⟨some bad, {}, rfl, fun heq => (by cases heq), fun hall => ?_⟩
              rw [(checkType_verdict value schema path).2 hall.1] at htype
              cases htype
          | none =>
              have hpermitted := (checkType_verdict value schema path).1 htype
              obtain ⟨located, hlocated, hcheck⟩ := checkNested_parts hunion
                ((checkType_verdict value schema []).2 hpermitted) path
              rw [hcheck, run_andThen (adds_requiredCheck value schema path)]
              refine Verdict.congr (Verdict.andThen (verdict_pure none) (Verdict.andThen_of
                (q := RequiredMet value schema) (verdict_firstBad (p := fun l => Clean l.1.1 l.1.2)
                  (fun l _ => adds_validateAt n true _ _ _) fun l hl => ?_) fun hall => ?_)) ?_
              · have hmem : l.1 ∈ parts value schema := hlocated ▸ List.mem_map_of_mem hl
                have := size_part hmem
                exact ih (hparts l.1 hmem) (by omega) l.2
              · have hmeets : ∀ part ∈ parts value schema, Meets part.1 part.2 := by
                  rw [← hlocated, List.forall_mem_map]
                  exact fun l hl => (hall l hl).meets
                obtain ⟨found, hrun, hfound⟩ :=
                  requiredCheck_run (hiterable hunion hpermitted hmeets) path
                exact ⟨found, {}, hrun, hfound⟩
              · rw [← hlocated, List.forall_mem_map]
                exact ⟨fun h => ⟨hpermitted, h.2⟩, fun h => ⟨rfl, h.2⟩⟩
        refine ((verdict_enum value schema path).andThen hrest).congr ?_
        refine and_congr_right fun _ => ⟨fun h => ⟨fun hne => absurd hunion hne, fun _ => h⟩, fun h => ?_⟩
        exact h.2 hunion
      · rw [if_pos hunion, run_andThen (adds_checkUnion n true value _ path)]
        obtain ⟨matched, hmatch, hbranch⟩ : ∃ matched,
            strictMatch (fun b => validateAt n true value b path) (unionBranches schema) =
              .ok matched ∧ (matched = true ↔ ∃ b ∈ unionBranches schema, Clean value b) :=
          strictMatch_verdict fun b hb =>
            ih (hbranches b hb) (by have := size_union hb; omega) path
        have hverdict : Verdict ((checkUnion n true value (unionBranches schema) path).run {})
            (∃ b ∈ unionBranches schema, Clean value b) := by
          unfold checkUnion
          rw [hmatch]
          cases matched with
          | true => exact ⟨none, _, rfl, fun _ => hbranch.1 rfl, fun _ => rfl⟩
          | false =>
              refine ⟨some _, _, rfl, fun heq => (by cases heq), fun h => ?_⟩
              cases hbranch.2 h
        refine ((verdict_enum value schema path).andThen hverdict).congr ?_
        refine and_congr_right fun _ => ⟨fun h => ⟨fun _ => h, fun heq => absurd heq hunion⟩, fun h => ?_⟩
        exact h.1 hunion

/-! ### Structural validation -/

/-- An outcome without a `TypeError`, that is good exactly if `fits`.  Without a miss, an `enum` was only
counted if `hit`; and if `counted`, the collectors are those of the whole: nothing is missed exactly if
`clean`, and what is `hit` was counted. -/
def Collects (o : Checked) (fits counted clean hit : Prop) : Prop :=
  ∃ found st, o = .ok (found, st) ∧ (found = none ↔ fits) ∧ (st.soft = [] → 0 < st.hits → hit) ∧
    (counted → (st.soft = [] ↔ clean) ∧ (st.soft = [] → hit → 0 < st.hits))

omit [Platform] in
theorem Collects.andThen {o o' : Checked} {fits clean hit fits' counted' clean' hit' : Prop}
    (h : Collects o fits fits clean hit) (h' : Collects o' fits' counted' clean' hit') :
    Collects (Checked.andThen o o') (fits ∧ fits') (fits ∧ counted') (clean ∧ clean') (hit ∨ hit') := by
  obtain ⟨found, st, rfl, hfits, hhits, hcounted⟩ := h
  obtain ⟨found', st', rfl, hfits', hhits', hcounted'⟩ := h'
  cases found with
  | some bad =>
      have hnot : ¬fits := fun h => by cases hfits.2 h
      refine ⟨some bad, st, rfl, ?_, fun hsoft hpos => Or.inl (hhits hsoft hpos), ?_⟩
      · exact ⟨fun h => (by cases h), fun h => absurd h.1 hnot⟩
      · exact fun h => absurd h.1 hnot
  | none =>
      have hyes : fits := hfits.1 rfl
      obtain ⟨hclean, hcount⟩ := hcounted hyes
      have hsplit : (st.after st').soft = [] ↔ st.soft = [] ∧ st'.soft = [] := List.append_eq_nil_iff
      have hsum : (st.after st').hits = st.hits + st'.hits := rfl
      refine ⟨found', st.after st', rfl, ?_, ?_, ?_⟩
      · rw [hfits', and_iff_right hyes]
      · intro hsoft hpos
        obtain ⟨hs, hs'⟩ := hsplit.1 hsoft
        rcases Nat.eq_zero_or_pos st.hits with hzero | hfirst
        · exact Or.inr (hhits' hs' (by omega))
        · exact Or.inl (hhits hs hfirst)
      · intro hboth
        obtain ⟨hclean', hcount'⟩ := hcounted' hboth.2
        refine ⟨by rw [hsplit, hclean, hclean'], fun hsoft hhit => ?_⟩
        obtain ⟨hs, hs'⟩ := hsplit.1 hsoft
        rcases hhit with hhit | hhit
        · have := hcount hs hhit
          omega
        · have := hcount' hs' hhit
          omega

omit [Platform] in
theorem Collects.congr {o : Checked} {fits counted clean hit fits' counted' clean' hit' : Prop}
    (h : Collects o fits counted clean hit) (hfits : fits ↔ fits') (hcounted : counted' → counted)
    (hclean : clean ↔ clean') (hhit : hit ↔ hit') : Collects o fits' counted' clean' hit' := by
  obtain ⟨found, st, ho, hf, hh, hc⟩ := h
  refine ⟨found, st, ho, hf.trans hfits, fun hs hpos => hhit.1 (hh hs hpos), fun h => ?_⟩
  obtain ⟨hcl, hco⟩ := hc (hcounted h)
  exact ⟨hcl.trans hclean, fun hs hit => hco hs (hhit.2 hit)⟩

omit [Platform] in
/-- A check that collects nothing. -/
theorem collects_nothing (found : Option SchemaViolation) (counted : Prop) :
    Collects (.ok (found, {})) (found = none) counted True False :=
  ⟨found, {}, rfl, Iff.rfl, fun _ h => (by cases h), fun _ => ⟨by simp, fun _ h => h.elim⟩⟩

omit [Platform] in
/-- Such a check when it is made only if nothing has been found. -/
theorem Collects.andThen_nothing {o o' : Checked} {fits clean hit met : Prop}
    (h : Collects o fits fits clean hit)
    (h' : fits → ∃ found, o' = .ok (found, {}) ∧ (found = none ↔ met)) :
    Collects (Checked.andThen o o') (fits ∧ met) fits clean hit := by
  by_cases hfits : fits
  · obtain ⟨found, rfl, hfound⟩ := h' hfits
    refine (h.andThen (collects_nothing found True)).congr (by rw [hfound]) (fun h => ⟨h, trivial⟩) ?_ ?_
    · exact iff_of_eq (and_true clean)
    · exact iff_of_eq (or_false hit)
  · obtain ⟨found, st, rfl, hfound, hhits, hcounted⟩ := h
    obtain ⟨bad, rfl⟩ := Option.ne_none_iff_exists'.1 fun heq => hfits (hfound.1 heq)
    exact ⟨some bad, st, rfl, ⟨fun heq => (by cases heq), fun h => absurd h.1 hfits⟩, hhits,
      fun h => absurd h hfits⟩

omit [Platform] in
theorem collects_firstBad {ι : Type} {is : List ι} {c : ι → Check} {fits clean hit : ι → Prop}
    (hadds : ∀ i ∈ is, Adds (c i))
    (h : ∀ i ∈ is, Collects ((c i).run {}) (fits i) (fits i) (clean i) (hit i)) :
    Collects ((firstBad (is.map c)).run {}) (∀ i ∈ is, fits i) (∀ i ∈ is, fits i)
      (∀ i ∈ is, clean i) (∃ i ∈ is, hit i) := by
  induction is with
  | nil => exact (collects_nothing none True).congr (by simp) (fun _ => trivial) (by simp) (by simp)
  | cons i is ih =>
      obtain ⟨hi, his⟩ := List.forall_mem_cons.1 h
      obtain ⟨-, haddsRest⟩ := List.forall_mem_cons.1 hadds
      have hrest : Adds (firstBad (is.map c)) := adds_firstBad fun d hd => by
        obtain ⟨j, hj, rfl⟩ := List.mem_map.1 hd
        exact haddsRest j hj
      rw [List.map_cons, firstBad_cons, run_andThen hrest]
      refine (hi.andThen (ih haddsRest his)).congr List.forall_mem_cons.symm ?_
        List.forall_mem_cons.symm (List.exists_mem_cons_iff ..).symm
      exact List.forall_mem_cons.1

theorem collects_enum (value : Subject) (schema : Json) (path : JsString) :
    Collects ((checkEnum false value schema path).run {}) True True (¬EnumMissed value schema)
      (EnumMet value schema) := by
  unfold checkEnum EnumMissed EnumMet
  split
  · next e es hfield =>
      rw [hfield]
      have hmet : (∃ es', some (Json.arr (e :: es)) = some (Json.arr es') ∧
          es'.any (sameJson value) = true) ↔ (e :: es).any (sameJson value) = true := by
        constructor
        · intro h
          obtain ⟨es', heq, hany⟩ := h
          cases heq
          exact hany
        · exact fun h => ⟨_, rfl, h⟩
      have hmissed : (∃ e' es', some (Json.arr (e :: es)) = some (Json.arr (e' :: es')) ∧
          (e' :: es').any (sameJson value) = false) ↔ (e :: es).any (sameJson value) = false := by
        constructor
        · intro h
          obtain ⟨e', es', heq, hany⟩ := h
          cases heq
          exact hany
        · exact fun h => ⟨e, es, rfl, h⟩
      rw [hmet, hmissed]
      cases (e :: es).any (sameJson value) with
      | true =>
          refine ⟨none, ⟨[], 1⟩, rfl, by simp, fun _ _ => rfl, fun _ => ⟨by simp, fun _ _ => ?_⟩⟩
          exact Nat.one_pos
      | false =>
          refine ⟨none, ⟨[⟨path⟩], 0⟩, rfl, by simp, fun h => (by cases h), fun _ => ⟨by simp, ?_⟩⟩
          exact fun h => by cases h
  · next hfield =>
      refine (collects_nothing none True).congr (by simp) (fun _ => trivial) ?_ ?_
      · refine ⟨fun _ h => ?_, fun _ => trivial⟩
        obtain ⟨e, es, heq, -⟩ := h
        exact hfield e es heq
      · refine ⟨fun h => h.elim, fun h => ?_⟩
        obtain ⟨es, heq, hany⟩ := h
        cases es with
        | nil => cases hany
        | cons e es => exact hfield e es heq

/-- What an outcome in structural mode says of the value and the schema: when it is good, and also when it
is bad although the parts fit, everything has been counted. -/
def Reports (o : Checked) (value : Subject) (schema : Json) : Prop :=
  ∃ found st, o = .ok (found, st) ∧ (found = none ↔ Meets value schema) ∧
    (st.soft = [] → 0 < st.hits → Countable value schema) ∧
    (found = none → (st.soft = [] ↔ Clean value schema) ∧
      (st.soft = [] → Hit value schema → 0 < st.hits)) ∧
    (found ≠ none → (∀ part ∈ parts value schema, Meets part.1 part.2) →
      (st.soft = [] ↔ ¬EnumMissed value schema ∧ ∀ part ∈ parts value schema, Clean part.1 part.2) ∧
      (st.soft = [] → Hit value schema → 0 < st.hits))

theorem Reports.collects {o : Checked} {value : Subject} {schema : Json} (h : Reports o value schema) :
    Collects o (Meets value schema) (Meets value schema) (Clean value schema)
      (Countable value schema ∧ (Meets value schema → Clean value schema)) := by
  obtain ⟨found, st, ho, hfits, hhits, hgood, -⟩ := h
  refine ⟨found, st, ho, hfits, fun hs hpos => ⟨hhits hs hpos, fun hmeets => ?_⟩, fun hmeets => ?_⟩
  · exact (hgood (hfits.2 hmeets)).1.1 hs
  · obtain ⟨hsoft, hcount⟩ := hgood (hfits.2 hmeets)
    exact ⟨hsoft, fun hs hboth => hcount hs hboth.1.hit⟩

/-- A branch that fails after it has counted an `enum`, and no miss, is authoritative. -/
def Authoritative (o : Checked) : Prop :=
  ∃ bad st, o = .ok (some bad, st) ∧ 0 < st.hits ∧ st.soft = []

theorem Reports.meets {value : Subject} {branch : Json} {st : SchemaState}
    (h : Reports (.ok (none, st)) value branch) : Meets value branch := by
  obtain ⟨found, st', heq, hfits, -⟩ := h
  cases heq
  exact hfits.1 rfl

/-! ### What is collected before a violation -/

/-- What the `enum` of the schema itself has collected stays, whatever follows. -/
theorem collected_first {n : ℕ} {value : Subject} {schema : Json} {path : JsString}
    (hn : schema.size ≤ n) {found : Option SchemaViolation} {st : SchemaState}
    (hrun : (validateAt n false value schema path).run {} = .ok (found, st)) :
    ∃ root rest, (checkEnum false value schema path).run {} = .ok (none, root) ∧
      st = root.after rest := by
  have hpos := Json.size_pos schema
  obtain ⟨n, rfl⟩ : ∃ m, n = m + 1 := ⟨n - 1, by omega⟩
  obtain ⟨found₀, root, hroot, henum, -⟩ := collects_enum value schema path
  obtain rfl : found₀ = none := henum.2 trivial
  have hrest : ∀ c : Check, Adds c →
      (andThen (checkEnum false value schema path) c).run {} = .ok (found, st) →
      ∃ rest, st = root.after rest := by
    intro c hadds hrun
    rw [run_andThen hadds, hroot] at hrun
    cases hc : c.run {} with
    | error m =>
        rw [hc] at hrun
        cases hrun
    | ok r =>
        rw [hc] at hrun
        cases hrun
        exact ⟨_, rfl⟩
  suffices h : ∃ rest, st = root.after rest by
    obtain ⟨rest, hst⟩ := h
    exact ⟨root, rest, hroot, hst⟩
  rw [validateAt_succ] at hrun
  split at hrun
  · exact hrest _ (adds_checkUnion n false value _ path) hrun
  · exact hrest _ ((adds_pure _).andThen (adds_checkNested n false value schema path)) hrun

/-- A missed `enum` of the schema itself is collected, whatever follows. -/
theorem soft_of_missed {n : ℕ} {value : Subject} {schema : Json} {path : JsString} (hn : schema.size ≤ n)
    (hmissed : EnumMissed value schema) {found : Option SchemaViolation} {st : SchemaState}
    (hrun : (validateAt n false value schema path).run {} = .ok (found, st)) : st.soft ≠ [] := by
  obtain ⟨root, rest, hroot, rfl⟩ := collected_first hn hrun
  obtain ⟨found₀, root', hroot', -, -, hcounted⟩ := collects_enum value schema path
  rw [hroot] at hroot'
  cases hroot'
  exact List.append_ne_nil_of_left_ne_nil (fun h => (hcounted trivial).1.1 h hmissed) _

/-- A satisfied one is counted. -/
theorem hits_of_met {n : ℕ} {value : Subject} {schema : Json} {path : JsString} (hn : schema.size ≤ n)
    (hmet : EnumMet value schema) {found : Option SchemaViolation} {st : SchemaState}
    (hrun : (validateAt n false value schema path).run {} = .ok (found, st)) : 0 < st.hits := by
  obtain ⟨root, rest, hroot, rfl⟩ := collected_first hn hrun
  obtain ⟨found₀, root', hroot', -, -, hcounted⟩ := collects_enum value schema path
  rw [hroot] at hroot'
  cases hroot'
  obtain ⟨hsoft, hcount⟩ := hcounted trivial
  exact Nat.add_pos_left (hcount (hsoft.2 hmet.not_missed) hmet) _

omit [Platform] in
/-- No outcome of the check has a miss. -/
def Spotless (o : Checked) : Prop := ∀ found st, o = .ok (found, st) → st.soft = []

omit [Platform] in
theorem Spotless.andThen {o o' : Checked} (h : Spotless o) (h' : Spotless o') :
    Spotless (Checked.andThen o o') := by
  intro found st hrun
  unfold Checked.andThen at hrun
  split at hrun
  · cases hrun
  · next bad st₀ =>
      cases hrun
      exact h _ _ rfl
  · next st₀ =>
      unfold Checked.after at hrun
      cases o' with
      | error m => cases hrun
      | ok r =>
          cases hrun
          exact List.append_eq_nil_iff.2 ⟨h _ _ rfl, h' _ _ rfl⟩

omit [Platform] in
theorem spotless_pure (found : Option SchemaViolation) : Spotless ((pure found : Check).run {}) := by
  intro found' st hrun
  cases hrun
  rfl

theorem spotless_required (value : Subject) (schema : Json) (path : JsString) :
    Spotless ((requiredCheck value schema path).run {}) := by
  unfold requiredCheck
  split
  · split
    · intro found st hrun
      unfold checkRequired at hrun
      cases hkeys : requiredKeys schema with
      | error m =>
          rw [hkeys] at hrun
          cases hrun
      | ok keys =>
          rw [hkeys] at hrun
          cases hrun
          rfl
    · exact spotless_pure none
  · exact spotless_pure none

omit [Platform] in
theorem spotless_firstBad {ι : Type} {is : List ι} {c : ι → Check} (hadds : ∀ i ∈ is, Adds (c i))
    (h : ∀ i ∈ is, Spotless ((c i).run {})) : Spotless ((firstBad (is.map c)).run {}) := by
  induction is with
  | nil => exact spotless_pure none
  | cons i is ih =>
      obtain ⟨hi, his⟩ := List.forall_mem_cons.1 h
      obtain ⟨-, haddsRest⟩ := List.forall_mem_cons.1 hadds
      have hrest : Adds (firstBad (is.map c)) := adds_firstBad fun d hd => by
        obtain ⟨j, hj, rfl⟩ := List.mem_map.1 hd
        exact haddsRest j hj
      rw [List.map_cons, firstBad_cons, run_andThen hrest]
      exact hi.andThen (ih haddsRest his)

omit [Platform] in
/-- Where a check of the list fails, one that fails is the last, and what it has collected is kept. -/
theorem firstBad_stops {ι : Type} {is : List ι} {c : ι → Check} (hadds : ∀ i ∈ is, Adds (c i))
    (hbad : ∃ i ∈ is, ∀ st, (c i).run {} ≠ .ok (none, st)) {found : Option SchemaViolation}
    {st : SchemaState} (hrun : (firstBad (is.map c)).run {} = .ok (found, st)) :
    ∃ i ∈ is, ∃ bad st', (c i).run {} = .ok (some bad, st') ∧ found = some bad ∧
      (st'.soft ≠ [] → st.soft ≠ []) ∧ st'.hits ≤ st.hits := by
  induction is generalizing found st with
  | nil =>
      obtain ⟨i, hi, -⟩ := hbad
      cases hi
  | cons i is ih =>
      obtain ⟨-, haddsRest⟩ := List.forall_mem_cons.1 hadds
      have hrest : Adds (firstBad (is.map c)) := adds_firstBad fun d hd => by
        obtain ⟨j, hj, rfl⟩ := List.mem_map.1 hd
        exact haddsRest j hj
      rw [List.map_cons, firstBad_cons, run_andThen hrest] at hrun
      cases hi : (c i).run {} with
      | error m =>
          rw [hi] at hrun
          cases hrun
      | ok r =>
          obtain ⟨found₀, st₀⟩ := r
          rw [hi] at hrun
          cases found₀ with
          | some bad =>
              cases hrun
              exact ⟨i, List.mem_cons_self, bad, st, hi, rfl, fun h => h, le_rfl⟩
          | none =>
              obtain ⟨j, hj, hfails⟩ := hbad
              obtain rfl | hj := List.mem_cons.1 hj
              · exact absurd hi (hfails st₀)
              · cases hlist : (firstBad (is.map c)).run {} with
                | error m =>
                    rw [hlist] at hrun
                    cases hrun
                | ok r =>
                    obtain ⟨found', st''⟩ := r
                    rw [hlist] at hrun
                    cases hrun
                    obtain ⟨k, hk, bad, st', hck, hfound, hsoft, hhits⟩ :=
                      ih haddsRest ⟨j, hj, hfails⟩ hlist
                    refine ⟨k, List.mem_cons_of_mem i hk, bad, st', hck, hfound, fun h => ?_, ?_⟩
                    · exact List.append_ne_nil_of_right_ne_nil _ (hsoft h)
                    · exact hhits.trans (Nat.le_add_left _ _)

/-- Where nothing may be missed nothing is. -/
theorem spotless_validateAt {n : ℕ} {value : Subject} {schema : Json} (hread : ReadableAt value schema)
    (hn : schema.size ≤ n) (hmiss : ¬MayMiss value schema) (path : JsString) :
    Spotless ((validateAt n false value schema path).run {}) := by
  induction n generalizing value schema path with
  | zero =>
      have := Json.size_pos schema
      omega
  | succ n ih =>
      obtain ⟨-, hreadParts, hreadBranches⟩ := readableAt_iff.1 hread
      rw [mayMiss_iff, not_or, not_or, not_and, not_not, not_exists] at hmiss
      obtain ⟨hmet, hbranch, hparts⟩ := hmiss
      have henum : Spotless ((checkEnum false value schema path).run {}) := by
        intro found st hrun
        obtain ⟨found₀, root, hroot, -, -, hcounted⟩ := collects_enum value schema path
        rw [hroot] at hrun
        cases hrun
        exact (hcounted trivial).1.2 hmet
      rw [validateAt_succ]
      by_cases hunion : unionBranches schema = []
      · rw [if_neg (not_not.2 hunion)]
        have hnested := adds_checkNested n false value schema path
        rw [run_andThen ((adds_pure _).andThen hnested), run_andThen hnested]
        refine henum.andThen ?_
        cases htype : checkType value schema path with
        | some bad =>
            intro found st hrun
            cases hrun
            rfl
        | none =>
            have hpermitted := (checkType_verdict value schema path).1 htype
            obtain ⟨located, hlocated, hcheck⟩ := checkNested_parts hunion
              ((checkType_verdict value schema []).2 hpermitted) path
            rw [hcheck, run_andThen (adds_requiredCheck value schema path)]
            refine (spotless_pure none).andThen (Spotless.andThen (spotless_firstBad
              (fun l _ => adds_validateAt n false _ _ _) fun l hl => ?_)
              (spotless_required value schema path))
            have hmem : l.1 ∈ parts value schema := hlocated ▸ List.mem_map_of_mem hl
            have := size_part hmem
            exact ih (hreadParts l.1 hmem) (by omega) (fun h => hparts l.1 ⟨hmem, h⟩) l.2
      · rw [if_pos hunion, run_andThen (adds_checkUnion n false value _ path)]
        refine henum.andThen ?_
        have hclean : ∀ b ∈ unionBranches schema,
            Verdict ((validateAt n true value b path).run {}) (Clean value b) := fun b hb =>
          verdict_clean (hreadBranches b hb) (by have := size_union hb; omega) path
        obtain ⟨matched, hmatch, hmatched⟩ := strictMatch_verdict hclean
        obtain rfl : matched = true := hmatched.2 (hbranch hunion)
        unfold checkUnion
        rw [hmatch]
        exact spotless_pure none

/-- Where a part does not fit, one that does not is the last, and what it has collected is kept. -/
theorem stops_at_part {n : ℕ} {value : Subject} {schema : Json} {path : JsString}
    (hreports : ∀ part ∈ parts value schema, ∀ path,
      Reports ((validateAt n false part.1 part.2 path).run {}) part.1 part.2)
    (hbad : ∃ part ∈ parts value schema, ¬Meets part.1 part.2) {found : Option SchemaViolation}
    {st : SchemaState}
    (hrun : (validateAt (n + 1) false value schema path).run {} = .ok (found, st)) :
    ∃ part ∈ parts value schema, ¬Meets part.1 part.2 ∧ ∃ path' found' st',
      (validateAt n false part.1 part.2 path').run {} = .ok (found', st') ∧
        (st'.soft ≠ [] → st.soft ≠ []) ∧ st'.hits ≤ st.hits := by
  obtain ⟨part, hpart, hnot⟩ := hbad
  have hunion : unionBranches schema = [] := by
    by_contra hunion
    rw [parts_of_union hunion] at hpart
    cases hpart
  have hpermitted : TypePermitted value schema := by
    by_contra htype
    rw [parts_of_type htype] at hpart
    cases hpart
  have htype := (checkType_verdict value schema path).2 hpermitted
  obtain ⟨found₀, root, hroot, henum, -⟩ := collects_enum value schema path
  obtain rfl : found₀ = none := henum.2 trivial
  obtain ⟨located, hlocated, hcheck⟩ := checkNested_parts hunion
    ((checkType_verdict value schema []).2 hpermitted) path
  have hnested := adds_checkNested n false value schema path
  have hadds : ∀ l ∈ located, Adds (validateAt n false l.1.1 l.1.2 l.2) :=
    fun l _ => adds_validateAt n false _ _ _
  rw [validateAt_succ, if_neg (not_not.2 hunion), run_andThen ((adds_pure _).andThen hnested),
    run_andThen hnested, hroot, htype, hcheck, run_andThen (adds_requiredCheck value schema path)] at hrun
  cases hlist : (firstBad (located.map fun l => validateAt n false l.1.1 l.1.2 l.2)).run {} with
  | error m =>
      rw [hlist] at hrun
      cases hrun
  | ok r =>
      obtain ⟨found₁, st₁⟩ := r
      obtain ⟨l, hl, hlpart⟩ : ∃ l ∈ located, l.1 = part := List.mem_map.1 (hlocated ▸ hpart)
      have hfails : ∃ l ∈ located, ∀ st, (validateAt n false l.1.1 l.1.2 l.2).run {} ≠ .ok (none, st) := by
        refine ⟨l, hl, fun st' heq => hnot ?_⟩
        rw [← hlpart]
        exact (heq ▸ hreports l.1 (hlocated ▸ List.mem_map_of_mem hl) l.2).meets
      obtain ⟨l', hl', bad, st', hlrun, rfl, hsoft, hhits⟩ := firstBad_stops hadds hfails hlist
      rw [hlist] at hrun
      cases hrun
      have hmem : l'.1 ∈ parts value schema := hlocated ▸ List.mem_map_of_mem hl'
      refine ⟨l'.1, hmem, fun hmeets => ?_, l'.2, some bad, st', hlrun, fun h => ?_, ?_⟩
      · obtain ⟨found', st'', heq, hfits, -⟩ := hreports l'.1 hmem l'.2
        rw [hlrun] at heq
        cases heq
        cases hfits.2 hmeets
      · exact List.append_ne_nil_of_right_ne_nil _ (List.append_ne_nil_of_right_ne_nil _ (hsoft h))
      · exact hhits.trans ((Nat.le_add_left _ _).trans (Nat.le_add_left _ _))

/-- A branch that fails is authoritative if the value identifies itself as it in every order, and is not
if it does so in none. -/
theorem authoritative_validateAt {n : ℕ} {value : Subject} {branch : Json} {path : JsString}
    (hread : ReadableAt value branch) (hn : branch.size ≤ n + 1)
    (hbranch : Reports ((validateAt (n + 1) false value branch path).run {}) value branch)
    (hreports : ∀ part ∈ parts value branch, ∀ path,
      Reports ((validateAt n false part.1 part.2 path).run {}) part.1 part.2)
    (hnot : ¬Meets value branch) :
    (Claimed value branch → Authoritative ((validateAt (n + 1) false value branch path).run {})) ∧
    (Unclaimed value branch → ¬Authoritative ((validateAt (n + 1) false value branch path).run {})) := by
  obtain ⟨found, st, hrun, hfits, hhits, -, hcounted⟩ := hbranch
  have hfound : found ≠ none := fun h => hnot (hfits.1 h)
  obtain ⟨bad, rfl⟩ := Option.ne_none_iff_exists'.1 hfound
  have hauth : Authoritative ((validateAt (n + 1) false value branch path).run {}) ↔
      0 < st.hits ∧ st.soft = [] := by
    rw [hrun]
    constructor
    · rintro ⟨bad', st', heq, hboth⟩
      cases heq
      exact hboth
    · exact fun h => ⟨bad, st, rfl, h⟩
  rw [hauth]
  by_cases hgood : ∀ part ∈ parts value branch, Meets part.1 part.2
  · -- everything has been counted
    obtain ⟨hsoft, hcount⟩ := hcounted hfound hgood
    constructor
    · rintro ⟨hmet, hparts, hhit, -⟩
      have hs := hsoft.2 ⟨hmet, fun part hpart => (hgood part hpart).clean (hparts part hpart)⟩
      exact ⟨hcount hs hhit, hs⟩
    · rintro (hnone | ⟨⟨part, hpart, hdirty⟩, -⟩) ⟨hpos, hs⟩
      · exact hnone (hhits hs hpos)
      · exact hdirty ((hsoft.1 hs).2 part hpart)
  · -- what the first part that does not fit has collected decides
    obtain ⟨part, hpart, hpartNot⟩ : ∃ part ∈ parts value branch, ¬Meets part.1 part.2 := by
      simpa only [not_forall, exists_prop] using hgood
    have hunion : unionBranches branch = [] := by
      by_contra hunion
      rw [parts_of_union hunion] at hpart
      cases hpart
    obtain ⟨last, hlast, hlastNot, path', found', st', hlastRun, hsoft, hle⟩ :=
      stops_at_part hreports ⟨part, hpart, hpartNot⟩ hrun
    have hsize := size_part hlast
    constructor
    · rintro ⟨hmet, hparts, -, hroot⟩
      have hs : st.soft = [] := by
        refine spotless_validateAt hread hn ?_ path _ _ hrun
        rw [mayMiss_iff]
        rintro (hmissed | ⟨hne, -⟩ | ⟨part, hpart, hmiss⟩)
        · exact hmet hmissed
        · exact hne hunion
        · exact hparts part hpart hmiss
      refine ⟨?_, hs⟩
      rcases hroot with hroot | hroot
      · exact hits_of_met hn hroot hrun
      · have hlastMet := (hroot last hlast).resolve_left fun h => hlastNot h.meets
        exact (hits_of_met (by omega) hlastMet hlastRun).trans_le hle
    · rintro (hnone | ⟨-, hall⟩) ⟨hpos, hs⟩
      · exact hnone (hhits hs hpos)
      · have hlastMissed := (hall last hlast).resolve_left hlastNot
        exact hsoft (soft_of_missed (by omega) hlastMissed hlastRun) hs

omit [Platform] in
/-- The second pass: an authoritative branch decides; then any branch that passes. -/
theorem softMatch_outcome {validate : Json → Check} {bs : List Json} {u : Union}
    (h : ∀ b ∈ bs, ∃ r, (validate b).run {} = .ok r) (hu : ∀ v, u ≠ .bad v) :
    ∃ u', softMatch validate bs u = .ok u' ∧ match u' with
      | .bad _ => ∃ b ∈ bs, Authoritative ((validate b).run {})
      | .winner soft hits => (∀ b ∈ bs, ¬Authoritative ((validate b).run {})) ∧
          (u = .winner soft hits ∨ ∃ b ∈ bs, (validate b).run {} = .ok (none, ⟨soft, hits⟩))
      | .none => u = .none ∧ ∀ b ∈ bs, ∀ st, (validate b).run {} ≠ .ok (none, st) := by
  induction bs generalizing u with
  | nil =>
      refine ⟨u, rfl, ?_⟩
      cases u with
      | bad v => exact absurd rfl (hu v)
      | winner soft hits => exact ⟨fun b hb => (by cases hb), Or.inl rfl⟩
      | none => exact ⟨rfl, fun b hb => by cases hb⟩
  | cons b bs ih =>
      obtain ⟨⟨⟨found, st⟩, hrun⟩, hbs⟩ := List.forall_mem_cons.1 h
      unfold softMatch
      rw [hrun]
      cases found with
      | none =>
          have hquiet : ¬Authoritative ((validate b).run {}) := by
            rw [hrun]
            rintro ⟨bad, st', heq, -⟩
            cases heq
          have hnext : ∀ v : Union, (∀ x, v ≠ .bad x) → v ≠ .none →
              (∀ soft hits, v = .winner soft hits → u = .winner soft hits ∨
                st = ⟨soft, hits⟩) →
              ∃ u', softMatch validate bs v = .ok u' ∧ match u' with
                | .bad _ => ∃ b' ∈ b :: bs, Authoritative ((validate b').run {})
                | .winner soft hits => (∀ b' ∈ b :: bs, ¬Authoritative ((validate b').run {})) ∧
                    (u = .winner soft hits ∨
                      ∃ b' ∈ b :: bs, (validate b').run {} = .ok (none, ⟨soft, hits⟩))
                | .none => u = .none ∧ ∀ b' ∈ b :: bs, ∀ st, (validate b').run {} ≠ .ok (none, st) := by
            intro v hv hsome hwinner
            obtain ⟨u', hrest, hu'⟩ := ih hbs hv
            refine ⟨u', hrest, ?_⟩
            cases u' with
            | bad x =>
                obtain ⟨b', hb', hauth⟩ := hu'
                exact ⟨b', List.mem_cons_of_mem b hb', hauth⟩
            | winner soft hits =>
                refine ⟨List.forall_mem_cons.2 ⟨hquiet, hu'.1⟩, ?_⟩
                rcases hu'.2 with heq | hlater
                · rcases hwinner soft hits heq with hold | rfl
                  · exact Or.inl hold
                  · exact Or.inr ⟨b, List.mem_cons_self, hrun⟩
                · obtain ⟨b', hb', hpass⟩ := hlater
                  exact Or.inr ⟨b', List.mem_cons_of_mem b hb', hpass⟩
            | none => exact absurd hu'.1 hsome
          cases u with
          | bad x => exact absurd rfl (hu x)
          | winner soft hits =>
              refine hnext (.winner soft hits) hu (fun h => by cases h) fun soft' hits' heq => ?_
              cases heq
              exact Or.inl rfl
          | none =>
              refine hnext (.winner st.soft st.hits) (fun x h => by cases h) (fun h => by cases h)
                fun soft' hits' heq => ?_
              cases heq
              exact Or.inr rfl
      | some bad =>
          simp only [bind, Except.bind]
          by_cases hauth : 0 < st.hits ∧ st.soft = []
          · rw [if_pos hauth]
            refine ⟨.bad bad, rfl, b, List.mem_cons_self, ?_⟩
            exact ⟨bad, st, hrun, hauth⟩
          · rw [if_neg hauth]
            have hquiet : ¬Authoritative ((validate b).run {}) := by
              rw [hrun]
              rintro ⟨bad', st', heq, hboth⟩
              cases heq
              exact hauth hboth
            obtain ⟨u', hrest, hu'⟩ := ih hbs hu
            refine ⟨u', hrest, ?_⟩
            cases u' with
            | bad v =>
                obtain ⟨b', hb', hauth'⟩ := hu'
                exact ⟨b', List.mem_cons_of_mem b hb', hauth'⟩
            | winner soft hits =>
                refine ⟨List.forall_mem_cons.2 ⟨hquiet, hu'.1⟩, hu'.2.imp_right fun h => ?_⟩
                obtain ⟨b', hb', hpass⟩ := h
                exact ⟨b', List.mem_cons_of_mem b hb', hpass⟩
            | none =>
                refine ⟨hu'.1, List.forall_mem_cons.2 ⟨fun st' heq => ?_, hu'.2⟩⟩
                rw [hrun] at heq
                cases heq

/-- A branch that fits without passing cleanly adds a miss. -/
theorem Reports.dirty {value : Subject} {branch : Json} {st : SchemaState}
    (h : Reports (.ok (none, st)) value branch) (hclean : ¬Clean value branch) : st.soft ≠ [] := by
  obtain ⟨found, st', heq, -, -, hgood, -⟩ := h
  cases heq
  exact fun hsoft => hclean ((hgood rfl).1.1 hsoft)

/-- In a decided union that some branch fits, a branch is authoritative exactly if the value identifies
itself as one that it does not fit. -/
theorem authoritative_iff {validate : Json → Check} {value : Subject} {bs : List Json}
    (hreports : ∀ b ∈ bs, Reports ((validate b).run {}) value b)
    (hclaims : ∀ b ∈ bs, ¬Meets value b → (Claimed value b → Authoritative ((validate b).run {})) ∧
      (Unclaimed value b → ¬Authoritative ((validate b).run {})))
    (hdecided : UnionDecided value bs) (hfits : ∃ b ∈ bs, Meets value b) :
    (∀ b ∈ bs, ¬Authoritative ((validate b).run {})) ↔ ∀ b ∈ bs, Meets value b ∨ ¬Claimed value b := by
  constructor
  · intro hquiet b hb
    by_cases hfit : Meets value b
    · exact Or.inl hfit
    · exact Or.inr fun hclaimed => hquiet b hb ((hclaims b hb hfit).1 hclaimed)
  · intro hall
    rcases hdecided with hnone | ⟨b, hb, hclaimed, hnot⟩ | hunclaimed
    · obtain ⟨b, hb, hfit⟩ := hfits
      exact absurd hfit (hnone b hb)
    · exact absurd hclaimed ((hall b hb).resolve_left hnot)
    · intro b hb hauth
      by_cases hfit : Meets value b
      · obtain ⟨found, st, hrun, hgood, -⟩ := hreports b hb
        obtain rfl : found = none := hgood.2 hfit
        obtain ⟨bad, st', heq, -⟩ := hauth
        rw [hrun] at heq
        cases heq
      · exact (hclaims b hb hfit).2 ((hunclaimed b hb).resolve_left hfit) hauth

/-- Without a union, everything is counted when the parts fit. -/
theorem reports_of_collects {o : Checked} {value : Subject} {schema : Json}
    (hunion : unionBranches schema = [])
    (h : Collects o (Meets value schema) (∀ part ∈ parts value schema, Meets part.1 part.2)
      (¬EnumMissed value schema ∧ ∀ part ∈ parts value schema, Clean part.1 part.2)
      (EnumMet value schema ∨ ∃ part ∈ parts value schema,
        Countable part.1 part.2 ∧ (Meets part.1 part.2 → Clean part.1 part.2)))
    (hmissed : EnumMissed value schema → ∀ found st, o = .ok (found, st) → st.soft ≠ []) :
    Reports o value schema := by
  obtain ⟨found, st, ho, hfits, hhits, hcounted⟩ := h
  have hcountable : st.soft = [] → 0 < st.hits → Countable value schema := fun hs hpos =>
    countable_iff.2 ⟨fun h => hmissed h found st ho hs, hhits hs hpos⟩
  have hall : (∀ part ∈ parts value schema, Meets part.1 part.2) →
      (st.soft = [] ↔ ¬EnumMissed value schema ∧ ∀ part ∈ parts value schema, Clean part.1 part.2) ∧
        (st.soft = [] → Hit value schema → 0 < st.hits) := by
    intro hparts
    obtain ⟨hsoft, hcount⟩ := hcounted hparts
    refine ⟨hsoft, fun hs hhit => hcount hs ?_⟩
    exact (countable_iff.1 (hhit.countable (hsoft.1 hs).1 (hsoft.1 hs).2)).2
  refine ⟨found, st, ho, hfits, hcountable, fun hfound => ?_, fun _ => hall⟩
  obtain ⟨htype, hparts, hrequired⟩ := (meets_iff.1 (hfits.1 hfound)).2 hunion
  obtain ⟨hsoft, hcount⟩ := hall hparts
  refine ⟨hsoft.trans ?_, hcount⟩
  rw [clean_iff]
  constructor
  · intro hall
    exact ⟨hall.1, fun hne => absurd hunion hne, fun _ => ⟨htype, hall.2, hrequired⟩⟩
  · exact fun hall => ⟨hall.1, (hall.2.2 hunion).2.1⟩

/-- A union counts nothing itself, unless a branch passes with a miss. -/
theorem reports_checkUnion {n : ℕ} {value : Subject} {schema : Json} {path : JsString}
    (hunion : unionBranches schema ≠ [])
    (hclean : ∀ b ∈ unionBranches schema,
      Verdict ((validateAt n true value b path).run {}) (Clean value b))
    (horder : (¬∃ b ∈ unionBranches schema, Clean value b) →
      (∀ b ∈ unionBranches schema, Reports ((validateAt n false value b path).run {}) value b ∧
        (¬Meets value b →
          (Claimed value b → Authoritative ((validateAt n false value b path).run {})) ∧
          (Unclaimed value b → ¬Authoritative ((validateAt n false value b path).run {})))) ∧
        UnionDecided value (unionBranches schema)) :
    Reports (Checked.andThen ((checkEnum false value schema path).run {})
      ((checkUnion n false value (unionBranches schema) path).run {})) value schema := by
  obtain ⟨found, root, hroot, henum, hhits, hcounted⟩ := collects_enum value schema path
  obtain rfl : found = none := henum.2 trivial
  obtain ⟨hsoft, hcount⟩ := hcounted trivial
  have hhit : Hit value schema ↔ EnumMet value schema := by
    rw [hit_iff, parts_of_union hunion]
    simp
  have hcountable : Countable value schema ↔ EnumMet value schema := by
    rw [countable_iff, parts_of_union hunion]
    simpa using EnumMet.not_missed
  have hfits : Meets value schema ↔ (∃ b ∈ unionBranches schema, Clean value b) ∨
      ((∃ b ∈ unionBranches schema, Meets value b) ∧
        ∀ b ∈ unionBranches schema, Meets value b ∨ ¬Claimed value b) := by
    rw [meets_iff]
    exact ⟨fun h => h.1 hunion, fun h => ⟨fun _ => h, fun heq => absurd heq hunion⟩⟩
  -- the outcomes that leave the collectors as the `enum` has left them
  have hcollected : (root.soft = [] → 0 < root.hits → Countable value schema) ∧
      (root.soft = [] → Hit value schema → 0 < root.hits) := by
    rw [hhit, hcountable]
    exact ⟨hhits, hcount⟩
  have hbad : ∀ bad, ¬Meets value schema → Reports (.ok (some bad, root)) value schema := by
    intro bad hnot
    refine ⟨some bad, root, rfl, ⟨fun heq => (by cases heq), fun h => absurd h hnot⟩,
      hcollected.1, fun heq => (by cases heq), fun _ _ => ⟨?_, hcollected.2⟩⟩
    rw [hsoft, parts_of_union hunion]
    simp
  have hafter : root.after {} = root := by
    cases root
    simp [SchemaState.after]
  rw [hroot]
  obtain ⟨matched, hmatch, hbranch⟩ := strictMatch_verdict hclean
  unfold checkUnion
  rw [hmatch]
  cases matched with
  | true =>
      have hsome := hbranch.1 rfl
      refine ⟨none, root.after {}, rfl, ⟨fun _ => hfits.2 (Or.inl hsome), fun _ => rfl⟩, ?_⟩
      rw [hafter]
      refine ⟨hcollected.1, fun _ => ⟨?_, hcollected.2⟩, fun h => absurd rfl h⟩
      rw [hsoft, clean_iff]
      exact ⟨fun h => ⟨h, fun _ => hsome, fun heq => absurd heq hunion⟩, fun h => h.1⟩
  | false =>
      have hnone : ¬∃ b ∈ unionBranches schema, Clean value b := fun h => by cases hbranch.2 h
      obtain ⟨hboth, hdecided⟩ := horder hnone
      have hreports := fun b hb => (hboth b hb).1
      have hok : ∀ b ∈ unionBranches schema, ∃ r, (validateAt n false value b path).run {} = .ok r := by
        intro b hb
        obtain ⟨found, st, hrun, -⟩ := hreports b hb
        exact ⟨_, hrun⟩
      obtain ⟨u, hu, hmeaning⟩ := softMatch_outcome hok (u := .none) fun v h => by cases h
      have hauth := authoritative_iff hreports (fun b hb => (hboth b hb).2) hdecided
      rw [hu]
      cases u with
      | bad bad =>
          obtain ⟨b, hb, hauthoritative⟩ := hmeaning
          have := hbad bad fun h => by
            obtain ⟨hsome, hall⟩ := (hfits.1 h).resolve_left hnone
            exact (hauth hsome).2 hall b hb hauthoritative
          rw [← hafter] at this
          exact this
      | winner soft hits =>
          obtain ⟨hquiet, hwinner⟩ := hmeaning
          obtain ⟨b, hb, hrun⟩ := hwinner.resolve_left fun h => by cases h
          have hpass := hreports b hb
          rw [hrun] at hpass
          have hdirty : soft ≠ [] := hpass.dirty fun h => hnone ⟨b, hb, h⟩
          have hsome : ∃ b ∈ unionBranches schema, Meets value b := ⟨b, hb, hpass.meets⟩
          have hfit : Meets value schema := hfits.2 (Or.inr ⟨hsome, (hauth hsome).1 hquiet⟩)
          have hstate : (root.after { soft := [] ++ soft, hits := 0 + hits }).soft ≠ [] :=
            List.append_ne_nil_of_right_ne_nil _ hdirty
          refine ⟨none, root.after { soft := [] ++ soft, hits := 0 + hits }, rfl,
            ⟨fun _ => hfit, fun _ => rfl⟩, fun h => absurd h hstate, fun _ => ⟨?_, fun h => absurd h hstate⟩,
            fun h => absurd rfl h⟩
          refine ⟨fun h => absurd h hstate, fun h => ?_⟩
          exact absurd ((clean_iff.1 h).2.1 hunion) hnone
      | none =>
          have := hbad ⟨path, "value matches none of the anyOf/oneOf branches"⟩ fun h => by
            obtain ⟨b, hb, hfit⟩ := ((hfits.1 h).resolve_left hnone).1
            obtain ⟨found, st, hrun, hgood, -⟩ := hreports b hb
            obtain rfl : found = none := hgood.2 hfit
            exact hmeaning.2 b hb st hrun
          rw [← hafter] at this
          exact this

/-- **Structural validation accepts what fits**, and counts the enums of what it accepts. -/
theorem reports_validateAt {n : ℕ} {value : Subject} {schema : Json} (hread : ReadableAt value schema)
    (h : Orderly value schema) (hn : schema.size ≤ n) (path : JsString) :
    Reports ((validateAt n false value schema path).run {}) value schema := by
  induction n using Nat.strongRecOn generalizing value schema path with
  | ind n ih =>
      have hpos := Json.size_pos schema
      obtain ⟨n, rfl⟩ : ∃ m, n = m + 1 := ⟨n - 1, by omega⟩
      obtain ⟨hiterable, hreadParts, hreadBranches⟩ := readableAt_iff.1 hread
      obtain ⟨hparts, horder⟩ := orderly_iff.1 h
      by_cases hunion : unionBranches schema = []
      · have hnested := adds_checkNested n false value schema path
        have hrun : (validateAt (n + 1) false value schema path).run {} =
            Checked.andThen ((checkEnum false value schema path).run {})
              (Checked.andThen ((pure (checkType value schema path) : Check).run {})
                ((checkNested n false value schema path).run {})) := by
          rw [validateAt_succ, if_neg (not_not.2 hunion), run_andThen ((adds_pure _).andThen hnested),
            run_andThen hnested]
        rw [hrun]
        refine reports_of_collects hunion ?_ fun hmissed found st heq =>
          soft_of_missed hn hmissed (hrun.trans heq)
        have hfits : Meets value schema ↔ TypePermitted value schema ∧
            (∀ part ∈ parts value schema, Meets part.1 part.2) ∧ RequiredMet value schema := by
          rw [meets_iff]
          exact ⟨fun h => h.2 hunion, fun h => ⟨fun hne => absurd hunion hne, fun _ => h⟩⟩
        cases htype : checkType value schema path with
        | some bad =>
            have hnot : ¬TypePermitted value schema := by
              intro hpermitted
              rw [(checkType_verdict value schema path).2 hpermitted] at htype
              cases htype
            refine ((collects_enum value schema path).andThen
              (collects_nothing (some bad) True)).congr ?_ (fun _ => ⟨trivial, trivial⟩) ?_ ?_
            · rw [hfits]
              exact ⟨fun h => (by cases h.2), fun h => absurd h.1 hnot⟩
            · rw [parts_of_type hnot]
              simp
            · rw [parts_of_type hnot]
              simp
        | none =>
            have hpermitted := (checkType_verdict value schema path).1 htype
            obtain ⟨located, hlocated, hcheck⟩ := checkNested_parts hunion
              ((checkType_verdict value schema []).2 hpermitted) path
            rw [hcheck, run_andThen (adds_requiredCheck value schema path)]
            have hlist : Collects ((firstBad (located.map fun l =>
                validateAt n false l.1.1 l.1.2 l.2)).run {}) (∀ l ∈ located, Meets l.1.1 l.1.2)
                (∀ l ∈ located, Meets l.1.1 l.1.2) (∀ l ∈ located, Clean l.1.1 l.1.2)
                (∃ l ∈ located, Countable l.1.1 l.1.2 ∧ (Meets l.1.1 l.1.2 → Clean l.1.1 l.1.2)) := by
              refine collects_firstBad (fun l _ => adds_validateAt n false _ _ _) fun l hl => ?_
              have hmem : l.1 ∈ parts value schema := hlocated ▸ List.mem_map_of_mem hl
              have := size_part hmem
              exact (ih n (by omega) (hreadParts l.1 hmem) (hparts l.1 hmem) (by omega) l.2).collects
            have hrest := hlist.andThen_nothing fun hall => requiredCheck_run
              (hiterable hunion hpermitted (by rwa [← hlocated, List.forall_mem_map])) path
            refine ((collects_enum value schema path).andThen
              (Collects.andThen (collects_nothing none (none = none)) hrest)).congr ?_ ?_ ?_ ?_
            · rw [hfits, ← hlocated, List.forall_mem_map]
              simp [hpermitted]
            · rw [← hlocated, List.forall_mem_map]
              exact fun h => ⟨trivial, rfl, h⟩
            · rw [← hlocated, List.forall_mem_map]
              simp
            · rw [← hlocated]
              simp
      · rw [validateAt_succ, if_pos hunion, run_andThen (adds_checkUnion n false value _ path)]
        have hsize : ∀ b ∈ unionBranches schema, b.size ≤ n := fun b hb => by
          have := size_union hb
          omega
        refine reports_checkUnion hunion (fun b hb => ?_) fun hnone => ?_
        · exact verdict_clean (hreadBranches b hb) (hsize b hb) path
        · obtain ⟨hbranches, hdecided⟩ := horder.resolve_left hnone
          refine ⟨fun b hb => ?_, hdecided⟩
          have hreports := ih n (by omega) (hreadBranches b hb) (hbranches b hb) (hsize b hb) path
          refine ⟨hreports, ?_⟩
          have hb₀ := Json.size_pos b
          have hb₁ := hsize b hb
          obtain ⟨n, rfl⟩ : ∃ m, n = m + 1 := ⟨n - 1, by omega⟩
          refine authoritative_validateAt (hreadBranches b hb) hb₁ hreports fun part hpart path' => ?_
          have := size_part hpart
          exact ih n (by omega) ((readableAt_iff.1 (hreadBranches b hb)).2.1 part hpart)
            ((orderly_iff.1 (hbranches b hb)).1 part hpart) (by omega) path'

end

end VibeRouter
