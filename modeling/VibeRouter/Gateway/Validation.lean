import VibeRouter.Gateway.Verify

/-! # Strict and structural validation

A check only adds to the collectors (`Adds`), so it is described by its outcome on empty ones.  A schema
is one check after another (`validateAt_succ`): its `enum`, and then the union, or the type and what is
nested in the value.  `validation_modes_agree`: structural validation finds nothing at all exactly when
strict validation finds nothing, and never more than strict validation does. -/

namespace VibeRouter

/-! ### Checks one after the other -/

/-- What a check answers on empty collectors. -/
abbrev Checked : Type := Except String (Option SchemaViolation × SchemaState)

/-- What the collectors hold when more is added to them. -/
def SchemaState.after (σ st : SchemaState) : SchemaState := ⟨σ.soft ++ st.soft, σ.hits + st.hits⟩

theorem SchemaState.after_assoc (σ st st' : SchemaState) :
    (σ.after st).after st' = σ.after (st.after st') := by
  simp [SchemaState.after, Nat.add_assoc]

/-- An outcome on collectors that hold something already. -/
def Checked.after (σ : SchemaState) (o : Checked) : Checked := o.map fun r => (r.1, σ.after r.2)

/-- A check reads nothing of the collectors, and adds to them. -/
def Adds (c : Check) : Prop := ∀ σ, c.run σ = Checked.after σ (c.run {})

/-- One check, and another one if it finds nothing. -/
def andThen (c d : Check) : Check := do
  match ← c with
  | some bad => pure (some bad)
  | none => d

/-- One outcome, and another one if it is good. -/
def Checked.andThen (o o' : Checked) : Checked :=
  match o with
  | .error e => .error e
  | .ok (some bad, st) => .ok (some bad, st)
  | .ok (none, st) => Checked.after st o'

theorem run_andThen {c d : Check} (hd : Adds d) :
    (andThen c d).run {} = Checked.andThen (c.run {}) (d.run {}) := by
  unfold andThen Checked.andThen
  simp only [StateT.run_bind]
  cases c.run {} with
  | error e => rfl
  | ok r =>
      obtain ⟨bad, st⟩ := r
      cases bad with
      | none => exact hd st
      | some bad => rfl

theorem adds_pure (bad : Option SchemaViolation) : Adds (pure bad) := by
  intro σ
  show Except.ok (bad, σ) = Except.ok (bad, σ.after {})
  simp [SchemaState.after]

theorem Adds.andThen {c d : Check} (hc : Adds c) (hd : Adds d) : Adds (andThen c d) := by
  intro σ
  rw [run_andThen hd]
  unfold VibeRouter.andThen
  simp only [StateT.run_bind]
  rw [hc σ]
  cases c.run {} with
  | error e => rfl
  | ok r =>
      obtain ⟨bad, st⟩ := r
      cases bad with
      | some bad => rfl
      | none =>
          have hrun := hd (σ.after st)
          simp only [Checked.after, Checked.andThen, Except.map, bind, Except.bind] at hrun ⊢
          rw [hrun]
          cases d.run {} with
          | error e => rfl
          | ok r' => simp only [SchemaState.after_assoc]

theorem firstBad_cons (c : Check) (cs : List Check) :
    firstBad (c :: cs) = andThen c (firstBad cs) := rfl

theorem adds_firstBad {cs : List Check} (h : ∀ c ∈ cs, Adds c) : Adds (firstBad cs) := by
  induction cs with
  | nil => exact adds_pure none
  | cons c cs ih =>
      obtain ⟨hc, hcs⟩ := List.forall_mem_cons.1 h
      exact hc.andThen (ih hcs)

/-! ### The passes over a union -/

theorem strictMatch_false {validate : Json → Check} {bs : List Json}
    (h : strictMatch validate bs = .ok false) :
    ∀ b ∈ bs, ∃ bad st, (validate b).run {} = .ok (some bad, st) := by
  induction bs with
  | nil => exact fun b hb => by cases hb
  | cons b bs ih =>
      unfold strictMatch at h
      cases hrun : (validate b).run {} with
      | error e =>
          rw [hrun] at h
          cases h
      | ok r =>
          obtain ⟨found, st⟩ := r
          rw [hrun] at h
          cases found with
          | none => cases h
          | some bad => exact List.forall_mem_cons.2 ⟨⟨bad, st, hrun⟩, ih h⟩

/-- The winner of the second pass is a branch that passes. -/
theorem softMatch_winner {validate : Json → Check} {bs : List Json} {u : Union}
    {soft : List SoftFinding} {hits : ℕ} (h : softMatch validate bs u = .ok (.winner soft hits)) :
    u = .winner soft hits ∨ ∃ b ∈ bs, (validate b).run {} = .ok (none, ⟨soft, hits⟩) := by
  induction bs generalizing u with
  | nil =>
      cases h
      exact Or.inl rfl
  | cons b bs ih =>
      unfold softMatch at h
      cases hrun : (validate b).run {} with
      | error e =>
          rw [hrun] at h
          cases h
      | ok r =>
          obtain ⟨found, st⟩ := r
          rw [hrun] at h
          simp only [bind, Except.bind] at h
          cases found with
          | none =>
              rcases ih h with hu | ⟨b', hb', hrun'⟩
              · cases u with
                | none =>
                    cases hu
                    exact Or.inr ⟨b, List.mem_cons_self, hrun⟩
                | bad v => cases hu
                | winner soft' hits' => exact Or.inl hu
              · exact Or.inr ⟨b', List.mem_cons_of_mem b hb', hrun'⟩
          | some bad =>
              dsimp only at h
              split at h
              · cases h
              · rcases ih h with hu | ⟨b', hb', hrun'⟩
                · exact Or.inl hu
                · exact Or.inr ⟨b', List.mem_cons_of_mem b hb', hrun'⟩

/-! ### Outcomes that agree -/

/-- The outcome in strict mode against the one in structural mode: where the strict one is good, so is
the structural one, with nothing collected; and where it is bad, the structural one is not good, or else
something was collected. -/
inductive Agrees : Checked → Checked → Prop
  | error (e : String) : Agrees (.error e) (.error e)
  | good (st : SchemaState) (hits : ℕ) : Agrees (.ok (none, st)) (.ok (none, ⟨[], hits⟩))
  | bad (v : SchemaViolation) (st : SchemaState) {o : Checked}
      (h : ∀ st', o = .ok (none, st') → st'.soft ≠ []) : Agrees (.ok (some v, st)) o

theorem Agrees.andThen {o₁ o₁' o₂ o₂' : Checked} (h₁ : Agrees o₁ o₁') (h₂ : Agrees o₂ o₂') :
    Agrees (Checked.andThen o₁ o₂) (Checked.andThen o₁' o₂') := by
  cases h₁ with
  | error e => exact .error e
  | good st hits =>
      cases h₂ with
      | error e => exact .error e
      | good st' hits' => exact .good _ _
      | bad v st' h =>
          refine .bad v _ fun st'' heq => ?_
          unfold Checked.andThen Checked.after at heq
          cases o₂' with
          | error e => cases heq
          | ok r =>
              obtain ⟨found, st₂⟩ := r
              cases heq
              exact h st₂ rfl
  | bad v st h =>
      refine .bad v st fun st'' heq => ?_
      unfold Checked.andThen Checked.after at heq
      cases o₁' with
      | error e => cases heq
      | ok r =>
          obtain ⟨bad, st'⟩ := r
          cases bad with
          | some bad => cases heq
          | none =>
              cases o₂' with
              | error e => cases heq
              | ok r =>
                  obtain ⟨found, st₂⟩ := r
                  cases heq
                  exact List.append_ne_nil_of_left_ne_nil (h st' rfl) _

theorem agrees_firstBad {ι : Type} {is : List ι} {c c' : ι → Check}
    (hadds : ∀ i ∈ is, Adds (c i) ∧ Adds (c' i))
    (h : ∀ i ∈ is, Agrees ((c i).run {}) ((c' i).run {})) :
    Agrees ((firstBad (is.map c)).run {}) ((firstBad (is.map c')).run {}) := by
  induction is with
  | nil => exact .good {} 0
  | cons i is ih =>
      obtain ⟨hi, his⟩ := List.forall_mem_cons.1 h
      obtain ⟨-, haddsRest⟩ := List.forall_mem_cons.1 hadds
      have hc : Adds (firstBad (is.map c)) := adds_firstBad fun d hd => by
        obtain ⟨j, hj, rfl⟩ := List.mem_map.1 hd
        exact (haddsRest j hj).1
      have hc' : Adds (firstBad (is.map c')) := adds_firstBad fun d hd => by
        obtain ⟨j, hj, rfl⟩ := List.mem_map.1 hd
        exact (haddsRest j hj).2
      rw [List.map_cons, List.map_cons, firstBad_cons, firstBad_cons, run_andThen hc, run_andThen hc']
      exact hi.andThen (ih haddsRest his)

/-! ### A schema, one check after the other -/

section
variable [Platform]

/-- The check of a union. -/
def checkUnion (n : ℕ) (strict : Bool) (value : Subject) (branches : List Json) (path : JsString) :
    Check := do
  if ← strictMatch (fun b => validateAt n true value b path) branches then pure none
  else if strict then pure (some ⟨path, "value matches none of the anyOf/oneOf branches"⟩)
  else match ← softMatch (fun b => validateAt n false value b path) branches .none with
    | .bad bad => pure (some bad)
    | .winner soft hits => do
        modify fun st => { soft := st.soft ++ soft, hits := st.hits + hits }
        pure none
    | .none => pure (some ⟨path, "value matches none of the anyOf/oneOf branches"⟩)

/-- The properties of a schema that an object has, each with its value and its schema. -/
def presentProperties (fields : List (JsString × Json)) (schema : Json) :
    List (JsString × Subject × Json) :=
  (((schema.field "properties").map objectEntries).getD []).filterMap fun p =>
    (property fields p.1).map fun v => (p.1, v, p.2)

/-- The check of the properties that an object has. -/
def checkProperties (n : ℕ) (strict : Bool) (fields : List (JsString × Json)) (schema : Json)
    (path : JsString) : Check :=
  firstBad ((presentProperties fields schema).map fun p =>
    validateAt n strict p.2.1 p.2.2 (path ++ js "." ++ p.1))

theorem checkProperties_eq (n : ℕ) (strict : Bool) (fields : List (JsString × Json)) (schema : Json)
    (path : JsString) : checkProperties n strict fields schema path =
      firstBad ((((schema.field "properties").map objectEntries).getD []).filterMap fun p =>
        (property fields p.1).map fun v => validateAt n strict v p.2 (path ++ js "." ++ p.1)) := by
  unfold checkProperties presentProperties
  rw [List.map_filterMap]
  simp only [Option.map_map, Function.comp_def]

/-- The names of `required`. -/
def requiredKeys (schema : Json) : Except String (List JsString) :=
  match schema.field "required" with
  | none | some .null => .ok []
  | some r => (iterateKeys r).map fun keys => keys.map propertyText

/-- The check of `required`. -/
def checkRequired (fields : List (JsString × Json)) (schema : Json) (path : JsString) : Check := do
  let keys ← liftM (requiredKeys schema)
  pure (keys.findSome? fun key =>
    if (property fields key).isSome then none
    else some ⟨path ++ js "." ++ key, "required property is missing"⟩)

/-- The check of what is nested in the value. -/
def checkNested (n : ℕ) (strict : Bool) (value : Subject) (schema : Json) (path : JsString) : Check :=
  match value with
  | some (.obj fields) =>
      if (schema.field "properties").any Json.truthy || (schema.field "required").any Json.truthy then
        andThen (checkProperties n strict fields schema path) (checkRequired fields schema path)
      else pure none
  | some (.arr xs) =>
      match (schema.field "items").filter Json.truthy with
      | some items => firstBad (xs.zipIdx.map fun x =>
          validateAt n strict (some x.1) items (path ++ js "[" ++ js (toString x.2) ++ js "]"))
      | none => pure none
  | _ => pure none

/-- A schema: its `enum`, and then the union, or the type and what is nested in the value. -/
theorem validateAt_succ (n : ℕ) (strict : Bool) (value : Subject) (schema : Json) (path : JsString) :
    validateAt (n + 1) strict value schema path =
      andThen (checkEnum strict value schema path)
        (if unionBranches schema ≠ [] then checkUnion n strict value (unionBranches schema) path
        else andThen (pure (checkType value schema path)) (checkNested n strict value schema path)) := by
  rw [validateAt.eq_def]
  unfold andThen
  refine congrArg (checkEnum strict value schema path >>= ·) (funext fun found => ?_)
  cases found with
  | some bad => rfl
  | none =>
      dsimp only
      split
      · unfold checkUnion
        refine congrArg (liftM (strictMatch _ _) >>= ·) (funext fun matched => ?_)
        cases matched with
        | true => rfl
        | false => cases strict <;> rfl
      · rw [pure_bind]
        cases checkType value schema path with
        | some bad => rfl
        | none =>
            unfold checkNested
            cases value with
            | none => rfl
            | some v =>
                cases v with
                | obj fields =>
                    dsimp only
                    cases hread : (schema.field "properties").any Json.truthy ||
                      (schema.field "required").any Json.truthy with
                    | false => rfl
                    | true =>
                        simp only [Bool.not_true, Bool.false_eq_true, if_false, if_true]
                        rw [checkProperties_eq]
                        unfold checkRequired andThen
                        refine congrArg (firstBad _ >>= ·) (funext fun found => ?_)
                        cases found with
                        | some bad => rfl
                        | none =>
                            dsimp only
                            unfold requiredKeys
                            cases schema.field "required" with
                            | none => rfl
                            | some r =>
                                cases r with
                                | null => rfl
                                | arr xs => rfl
                                | str s => rfl
                                | bool b => rfl
                                | num n => rfl
                                | obj es => rfl
                | arr xs => rfl
                | null => rfl
                | bool b => rfl
                | num n => rfl
                | str s => rfl

theorem adds_checkEnum (strict : Bool) (value : Subject) (schema : Json) (path : JsString) :
    Adds (checkEnum strict value schema path) := by
  intro σ
  unfold checkEnum
  split
  · split
    · show Except.ok (none, _) = Except.ok (none, _)
      simp [SchemaState.after]
    · cases strict with
      | true => exact adds_pure _ σ
      | false => rfl
  · exact adds_pure none σ

theorem adds_checkUnion (n : ℕ) (strict : Bool) (value : Subject) (branches : List Json)
    (path : JsString) : Adds (checkUnion n strict value branches path) := by
  intro σ
  unfold checkUnion
  cases strictMatch (fun b => validateAt n true value b path) branches with
  | error e => rfl
  | ok matched =>
      cases matched with
      | true => exact adds_pure none σ
      | false =>
          cases strict with
          | true => exact adds_pure _ σ
          | false =>
              cases softMatch (fun b => validateAt n false value b path) branches .none with
              | error e => rfl
              | ok u =>
                  cases u with
                  | bad bad => exact adds_pure _ σ
                  | winner soft hits =>
                      show Except.ok (none, _) = Except.ok (none, _)
                      simp [SchemaState.after]
                  | none => exact adds_pure _ σ

theorem adds_checkRequired (fields : List (JsString × Json)) (schema : Json) (path : JsString) :
    Adds (checkRequired fields schema path) := by
  intro σ
  unfold checkRequired
  cases requiredKeys schema with
  | error e => rfl
  | ok keys => exact adds_pure _ σ

theorem adds_nested {n : ℕ} {strict : Bool}
    (h : ∀ value schema path, Adds (validateAt n strict value schema path)) (value : Subject)
    (schema : Json) (path : JsString) : Adds (checkNested n strict value schema path) := by
  unfold checkNested
  split
  · split
    · refine Adds.andThen (adds_firstBad fun c hc => ?_) (adds_checkRequired _ schema path)
      obtain ⟨p, -, rfl⟩ := List.mem_map.1 hc
      exact h _ _ _
    · exact adds_pure none
  · split
    · refine adds_firstBad fun c hc => ?_
      obtain ⟨x, -, rfl⟩ := List.mem_map.1 hc
      exact h _ _ _
    · exact adds_pure none
  · exact adds_pure none

/-- Validation adds to the collectors. -/
theorem adds_validateAt (n : ℕ) (strict : Bool) (value : Subject) (schema : Json) (path : JsString) :
    Adds (validateAt n strict value schema path) := by
  induction n generalizing value schema path with
  | zero => exact adds_pure none
  | succ n ih =>
      rw [validateAt_succ]
      refine (adds_checkEnum strict value schema path).andThen ?_
      split
      · exact adds_checkUnion n strict value _ path
      exact (adds_pure _).andThen (adds_nested ih value schema path)

theorem adds_checkNested (n : ℕ) (strict : Bool) (value : Subject) (schema : Json) (path : JsString) :
    Adds (checkNested n strict value schema path) :=
  adds_nested (adds_validateAt n strict) value schema path

/-! ### The two modes -/

theorem agrees_checkEnum (value : Subject) (schema : Json) (path : JsString) :
    Agrees ((checkEnum true value schema path).run {}) ((checkEnum false value schema path).run {}) := by
  unfold checkEnum
  split
  · split
    · exact .good _ 1
    · refine .bad _ _ fun st' heq => ?_
      cases heq
      exact List.cons_ne_nil _ _
  · exact .good {} 0

theorem agrees_checkUnion {n : ℕ} {value : Subject} {path : JsString} {branches : List Json}
    (ih : ∀ b ∈ branches, Agrees ((validateAt n true value b path).run {})
      ((validateAt n false value b path).run {})) :
    Agrees ((checkUnion n true value branches path).run {})
      ((checkUnion n false value branches path).run {}) := by
  unfold checkUnion
  cases hstrict : strictMatch (fun b => validateAt n true value b path) branches with
  | error e => exact .error e
  | ok matched =>
      cases matched with
      | true => exact .good {} 0
      | false =>
          refine .bad _ _ fun st' heq => ?_
          have hbad := strictMatch_false hstrict
          cases hsoft : softMatch (fun b => validateAt n false value b path) branches .none with
          | error e =>
              rw [hsoft] at heq
              cases heq
          | ok u =>
              rw [hsoft] at heq
              cases u with
              | bad bad => cases heq
              | none => cases heq
              | winner soft hits =>
                  have hst : st' = ⟨soft, hits⟩ := by
                    cases heq
                    simp
                  rw [hst]
                  rcases softMatch_winner hsoft with hu | ⟨b, hb, hrun⟩
                  · cases hu
                  · obtain ⟨bad, st, hstrict⟩ := hbad b hb
                    have hagrees := ih b hb
                    rw [hstrict, hrun] at hagrees
                    cases hagrees with
                    | bad _ _ h => exact h _ rfl

theorem agrees_validateAt (n : ℕ) (value : Subject) (schema : Json) (path : JsString) :
    Agrees ((validateAt n true value schema path).run {})
      ((validateAt n false value schema path).run {}) := by
  have hpure : ∀ bad, Agrees ((pure bad : Check).run {}) ((pure bad : Check).run {}) := by
    intro bad
    cases bad with
    | none => exact .good {} 0
    | some bad => exact .bad bad {} fun st' heq => by cases heq
  have hrequired : ∀ fields schema path, Agrees ((checkRequired fields schema path).run {})
      ((checkRequired fields schema path).run {}) := by
    intro fields schema path
    unfold checkRequired
    cases requiredKeys schema with
    | error e => exact .error e
    | ok keys => exact hpure _
  induction n generalizing value schema path with
  | zero => exact hpure none
  | succ n ih =>
      have hadds : ∀ strict, Adds (andThen (pure (checkType value schema path))
          (checkNested n strict value schema path)) :=
        fun strict => (adds_pure _).andThen (adds_checkNested n strict value schema path)
      rw [validateAt_succ, validateAt_succ]
      by_cases hunion : unionBranches schema ≠ []
      · rw [if_pos hunion, if_pos hunion, run_andThen (adds_checkUnion n true value _ path),
          run_andThen (adds_checkUnion n false value _ path)]
        exact (agrees_checkEnum value schema path).andThen (agrees_checkUnion fun b _ => ih value b path)
      rw [if_neg hunion, if_neg hunion, run_andThen (hadds true), run_andThen (hadds false),
        run_andThen (adds_checkNested n true value schema path),
        run_andThen (adds_checkNested n false value schema path)]
      refine (agrees_checkEnum value schema path).andThen ((hpure _).andThen ?_)
      unfold checkNested
      split
      · split
        · next fields _ =>
          have hadd := adds_checkRequired fields schema path
          rw [run_andThen hadd, run_andThen hadd]
          refine Agrees.andThen (agrees_firstBad ?_ ?_) (hrequired _ schema path)
          · exact fun p _ => ⟨adds_validateAt n true _ _ _, adds_validateAt n false _ _ _⟩
          · exact fun p _ => ih _ _ _
        · exact hpure none
      · split
        · refine agrees_firstBad ?_ ?_
          · exact fun x _ => ⟨adds_validateAt n true _ _ _, adds_validateAt n false _ _ _⟩
          · exact fun x _ => ih _ _ _
        · exact hpure none
      · exact hpure none

/-- **The two modes agree up to enum misses.**  Structural validation finds nothing and collects nothing
exactly when strict validation finds nothing, and where it finds a violation, so does strict
validation. -/
theorem validation_modes_agree (value schema : Json) :
    ((∃ st, validateSchemaSubset false value schema = .ok (none, st) ∧ st.soft = []) ↔
      ∃ st, validateSchemaSubset true value schema = .ok (none, st)) ∧
    ∀ bad st, validateSchemaSubset false value schema = .ok (some bad, st) →
      ∃ bad' st', validateSchemaSubset true value schema = .ok (some bad', st') := by
  have h := agrees_validateAt schema.size (some value) schema (js "$")
  unfold validateSchemaSubset
  generalize (validateAt schema.size true (some value) schema (js "$")).run {} = o at h
  generalize (validateAt schema.size false (some value) schema (js "$")).run {} = o' at h
  cases h with
  | error e =>
      refine ⟨⟨fun h => ?_, fun h => ?_⟩, fun _ _ h => by cases h⟩
      · obtain ⟨st, h, -⟩ := h
        cases h
      · obtain ⟨st, h⟩ := h
        cases h
  | good st hits => exact ⟨⟨fun _ => ⟨st, rfl⟩, fun _ => ⟨_, rfl, rfl⟩⟩, fun _ _ h => by cases h⟩
  | bad v st h =>
      refine ⟨⟨fun hgood => ?_, fun hgood => ?_⟩, fun _ _ _ => ⟨v, st, rfl⟩⟩
      · obtain ⟨st', heq, hsoft⟩ := hgood
        exact absurd hsoft (h st' heq)
      · obtain ⟨st', heq⟩ := hgood
        cases heq

end

end VibeRouter
