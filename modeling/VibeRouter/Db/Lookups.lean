import VibeRouter.Db.Admin
import VibeRouter.Lib.Rows

/-! # Looking up after a write

What the lookups of the administration find after each of its writes, in tables whose keys are
unique, and that the writes keep the keys unique. -/

namespace VibeRouter

namespace AdminDb

variable {db : AdminDb}

/-! ### Rows with a key -/

theorem findTaskClass_eq (key : String) :
    db.findTaskClass key = Rows.find (fun row => row.key) key db.taskClasses := rfl

theorem findPolicy_eq (firmId taskClassId : Uuid) :
    db.findPolicy firmId taskClassId =
      Rows.find (fun row => (row.firmId, row.taskClassId)) (firmId, taskClassId) db.policies := by
  unfold findPolicy Rows.find
  simp only [Prod.mk.injEq]

theorem taskClasses_updateTaskClass (id : Uuid) (set : TaskClassSet) :
    (db.updateTaskClass id set).taskClasses =
      Rows.update (fun row => row.id) id set.apply db.taskClasses := rfl

theorem policies_updatePolicy (id : Uuid) (values : PolicyValues) :
    (db.updatePolicy id values).policies =
      Rows.update (fun row => row.id) id (fun row => { row with toPolicyValues := values })
        db.policies := rfl

/-! ### Keys stay unique -/

/-- The policy of a firm for the task class `key`. -/
def policyOf (db : AdminDb) (firmId : Uuid) (key : String) : Option PolicyRecord :=
  (db.findTaskClass key).bind fun tc => db.findPolicy firmId tc.id

/-- What the task class `key` asks of its models. -/
def contractOf (db : AdminDb) (key : String) : Option ClassContract :=
  (db.findTaskClass key).map fun tc => tc.toClassContract

/-- The third-party-hosted models a firm has acknowledged for the task class `key`. -/
def acknowledgedOf (db : AdminDb) (firmId : Uuid) (key : String) : List String :=
  ((db.policyOf firmId key).map fun row => row.acknowledgedModels).getD []

section
variable {tc : TaskClassRecord} {key : String}

theorem findTaskClass_mem (h : db.findTaskClass key = some tc) :
    tc ∈ db.taskClasses ∧ tc.key = key := by
  rw [findTaskClass_eq] at h
  exact Rows.mem_of_find h

theorem Valid.findTaskClass_of_mem (h : db.Valid) (htc : tc ∈ db.taskClasses) :
    db.findTaskClass tc.key = some tc := by
  rw [findTaskClass_eq]
  exact Rows.find_of_mem h.classKeys htc

theorem Valid.updateTaskClass (h : db.Valid) (id : Uuid) (set : TaskClassSet) :
    (db.updateTaskClass id set).Valid where
  classIds := by
    rw [taskClasses_updateTaskClass, Rows.map_update]
    · exact h.classIds
    · exact fun _ => rfl
  classKeys := by
    rw [taskClasses_updateTaskClass, Rows.map_update]
    · exact h.classKeys
    · exact fun _ => rfl
  policyIds := h.policyIds
  policyKeys := h.policyKeys
  policyClasses := by
    intro row hrow
    obtain ⟨tc, htc, hid⟩ := h.policyClasses row hrow
    refine ⟨if tc.id = id then set.apply tc else tc, List.mem_map_of_mem htc, ?_⟩
    split
    · exact hid
    · exact hid

theorem Valid.insertTaskClass (h : db.Valid) {row : TaskClassRecord}
    (hid : ∀ tc ∈ db.taskClasses, tc.id ≠ row.id) (hkey : db.findTaskClass row.key = none) :
    (db.insertTaskClass row).Valid where
  classIds := Rows.nodup_append h.classIds hid
  classKeys := by
    rw [findTaskClass_eq] at hkey
    exact Rows.nodup_append h.classKeys (Rows.find_eq_none_iff.1 hkey)
  policyIds := h.policyIds
  policyKeys := h.policyKeys
  policyClasses := by
    intro p hp
    obtain ⟨tc, htc, hid⟩ := h.policyClasses p hp
    exact ⟨tc, List.mem_append_left _ htc, hid⟩

theorem Valid.updatePolicy (h : db.Valid) (id : Uuid) (values : PolicyValues) :
    (db.updatePolicy id values).Valid where
  classIds := h.classIds
  classKeys := h.classKeys
  policyIds := by
    rw [policies_updatePolicy, Rows.map_update]
    · exact h.policyIds
    · exact fun _ => rfl
  policyKeys := by
    rw [policies_updatePolicy, Rows.map_update]
    · exact h.policyKeys
    · exact fun _ => rfl
  policyClasses := by
    intro row hrow
    obtain ⟨old, hold, rfl⟩ := List.mem_map.1 hrow
    obtain ⟨tc, htc, hid⟩ := h.policyClasses old hold
    refine ⟨tc, htc, ?_⟩
    split
    · exact hid
    · exact hid

theorem Valid.insertPolicy (h : db.Valid) {row : PolicyRecord}
    (hid : ∀ p ∈ db.policies, p.id ≠ row.id) (hnone : db.findPolicy row.firmId row.taskClassId = none)
    (hclass : ∃ tc ∈ db.taskClasses, tc.id = row.taskClassId) : (db.insertPolicy row).Valid where
  classIds := h.classIds
  classKeys := h.classKeys
  policyIds := Rows.nodup_append h.policyIds hid
  policyKeys := by
    rw [findPolicy_eq] at hnone
    exact Rows.nodup_append h.policyKeys (Rows.find_eq_none_iff.1 hnone)
  policyClasses := by
    intro p hp
    rcases List.mem_append.1 hp with hp | hp
    · exact h.policyClasses p hp
    · rw [List.mem_singleton.1 hp]
      exact hclass

/-! ### Storing a task class -/

theorem findTaskClass_updateTaskClass (id : Uuid) (set : TaskClassSet) (key : String) :
    (db.updateTaskClass id set).findTaskClass key =
      (db.findTaskClass key).map fun row => if row.id = id then set.apply row else row := by
  rw [findTaskClass_eq, findTaskClass_eq, taskClasses_updateTaskClass, Rows.find_update]
  exact fun _ => rfl

theorem findTaskClass_insertTaskClass (row : TaskClassRecord) (key : String) :
    (db.insertTaskClass row).findTaskClass key =
      (db.findTaskClass key).or (if row.key = key then some row else none) := by
  rw [findTaskClass_eq, findTaskClass_eq]
  exact Rows.find_append _ row

/-- Another task class with the same id is the same. -/
theorem Valid.key_eq (h : db.Valid) {tc tc' : TaskClassRecord} (htc : tc ∈ db.taskClasses)
    (htc' : tc' ∈ db.taskClasses) (hid : tc.id = tc'.id) : tc = tc' :=
  Rows.eq_of_key h.classIds htc htc' hid

theorem Valid.contractOf_updateTaskClass (h : db.Valid) (hfind : db.findTaskClass key = some tc)
    (set : TaskClassSet) :
    (db.updateTaskClass tc.id set).contractOf =
      Function.update db.contractOf key (some (set.apply tc).toClassContract) := by
  obtain ⟨hmem, -⟩ := findTaskClass_mem hfind
  funext k
  unfold contractOf
  rw [findTaskClass_updateTaskClass]
  by_cases hk : k = key
  · subst hk
    rw [Function.update_self, hfind]
    simp
  · rw [Function.update_of_ne hk]
    cases hfind' : db.findTaskClass k with
    | none => rfl
    | some tc' =>
        obtain ⟨hmem', hkey'⟩ := findTaskClass_mem hfind'
        have hne : tc'.id ≠ tc.id := by
          intro hid
          have heq := h.key_eq hmem' hmem hid
          have hkey : tc.key = key := (findTaskClass_mem hfind).2
          exact hk (hkey'.symm.trans ((congrArg TaskClassRecord.key heq).trans hkey))
        simp [hne]

theorem policyOf_updateTaskClass (firmId : Uuid) (id : Uuid) (set : TaskClassSet) (key : String) :
    (db.updateTaskClass id set).policyOf firmId key = db.policyOf firmId key := by
  unfold policyOf
  rw [findTaskClass_updateTaskClass]
  cases db.findTaskClass key with
  | none => rfl
  | some tc =>
      show db.findPolicy firmId (if tc.id = id then set.apply tc else tc).id = _
      split
      · rfl
      · rfl

theorem contractOf_insertTaskClass {row : TaskClassRecord}
    (hnone : db.findTaskClass row.key = none) :
    (db.insertTaskClass row).contractOf =
      Function.update db.contractOf row.key (some row.toClassContract) := by
  funext k
  unfold contractOf
  rw [findTaskClass_insertTaskClass]
  by_cases hk : k = row.key
  · subst hk
    rw [Function.update_self, hnone, if_pos rfl]
    rfl
  · rw [Function.update_of_ne hk, if_neg (Ne.symm hk), Option.or_none]

/-- No policy is of a class whose id is not in use. -/
theorem Valid.policyOf_insertTaskClass (h : db.Valid) {row : TaskClassRecord}
    (hid : ∀ tc ∈ db.taskClasses, tc.id ≠ row.id) (firmId : Uuid) (key : String) :
    (db.insertTaskClass row).policyOf firmId key = db.policyOf firmId key := by
  unfold policyOf
  rw [findTaskClass_insertTaskClass]
  cases db.findTaskClass key with
  | some tc => rfl
  | none =>
      split
      · show db.findPolicy firmId row.id = none
        rw [findPolicy_eq, Rows.find_eq_none_iff]
        intro p hp hkey
        obtain ⟨tc, htc, hclass⟩ := h.policyClasses p hp
        have hrow : p.taskClassId = row.id := (Prod.mk.inj hkey).2
        exact hid tc htc (hclass.trans hrow)
      · rfl

theorem Valid.updateTaskClass_eq_iff (h : db.Valid) (hfind : db.findTaskClass key = some tc)
    (set : TaskClassSet) : db.updateTaskClass tc.id set = db ↔ set.apply tc = tc := by
  have hrows := Rows.update_eq_self_iff (f := set.apply) h.classIds (findTaskClass_mem hfind).1
  rw [← hrows]
  constructor
  · intro hdb
    exact congrArg AdminDb.taskClasses hdb
  · intro hdb
    show { db with taskClasses := _ } = db
    have hdb' : db.taskClasses.map (fun row => if row.id = tc.id then set.apply row else row) =
        db.taskClasses := hdb
    rw [hdb']

theorem insertTaskClass_ne (row : TaskClassRecord) : db.insertTaskClass row ≠ db := by
  intro hdb
  have hlength := congrArg (List.length ∘ AdminDb.taskClasses) hdb
  simp [AdminDb.insertTaskClass] at hlength

/-! ### Storing a policy -/

theorem findPolicy_updatePolicy (firmId taskClassId id : Uuid) (values : PolicyValues) :
    (db.updatePolicy id values).findPolicy firmId taskClassId =
      (db.findPolicy firmId taskClassId).map fun row =>
        if row.id = id then { row with toPolicyValues := values } else row := by
  rw [findPolicy_eq, findPolicy_eq, policies_updatePolicy, Rows.find_update]
  exact fun _ => rfl

theorem findPolicy_insertPolicy (row : PolicyRecord) (firmId taskClassId : Uuid) :
    (db.insertPolicy row).findPolicy firmId taskClassId =
      (db.findPolicy firmId taskClassId).or
        (if (row.firmId, row.taskClassId) = (firmId, taskClassId) then some row else none) := by
  rw [findPolicy_eq, findPolicy_eq]
  exact Rows.find_append _ row

theorem findPolicy_mem {firmId taskClassId : Uuid} {row : PolicyRecord}
    (h : db.findPolicy firmId taskClassId = some row) :
    row ∈ db.policies ∧ row.firmId = firmId ∧ row.taskClassId = taskClassId := by
  rw [findPolicy_eq] at h
  obtain ⟨hmem, hkey⟩ := Rows.mem_of_find h
  exact ⟨hmem, Prod.mk.inj hkey⟩

theorem Valid.updatePolicy_eq_iff (h : db.Valid) {firmId taskClassId : Uuid} {row : PolicyRecord}
    (hfind : db.findPolicy firmId taskClassId = some row) (values : PolicyValues) :
    db.updatePolicy row.id values = db ↔ values = row.toPolicyValues := by
  have hrows := Rows.update_eq_self_iff (f := fun row => { row with toPolicyValues := values })
    h.policyIds (findPolicy_mem hfind).1
  have hvalues : ({ row with toPolicyValues := values } : PolicyRecord) = row ↔
      values = row.toPolicyValues := by
    constructor
    · intro hrow
      exact congrArg PolicyRecord.toPolicyValues hrow
    · intro hrow
      rw [hrow]
  rw [← hvalues, ← hrows]
  constructor
  · intro hdb
    exact congrArg AdminDb.policies hdb
  · intro hdb
    show { db with policies := _ } = db
    have hdb' : db.policies.map (fun row' => if row'.id = row.id then
        { row' with toPolicyValues := values } else row') = db.policies := hdb
    rw [hdb']

theorem insertPolicy_ne (row : PolicyRecord) : db.insertPolicy row ≠ db := by
  intro hdb
  have hlength := congrArg (List.length ∘ AdminDb.policies) hdb
  simp [AdminDb.insertPolicy] at hlength

/-- The lookups after the policy of the class `key` got `values`. -/
theorem Valid.policyOf_updatePolicy (h : db.Valid) {firmId : Uuid} {row : PolicyRecord}
    (hfind : db.findTaskClass key = some tc) (hrow : db.findPolicy firmId tc.id = some row)
    (values : PolicyValues) (firmId' : Uuid) (key' : String) :
    (db.updatePolicy row.id values).policyOf firmId' key' =
      if firmId' = firmId ∧ key' = key then some { row with toPolicyValues := values }
      else db.policyOf firmId' key' := by
  obtain ⟨hmem, hfirm, hclass⟩ := findPolicy_mem hrow
  show ((db.findTaskClass key').bind fun tc =>
    (db.updatePolicy row.id values).findPolicy firmId' tc.id) = _
  split
  · next heq =>
      rw [heq.1, heq.2, hfind, Option.bind_some, findPolicy_updatePolicy, hrow, Option.map_some,
        if_pos rfl]
  · next hne =>
      unfold policyOf
      cases hfind' : db.findTaskClass key' with
      | none => rfl
      | some tc' =>
          rw [Option.bind_some, Option.bind_some, findPolicy_updatePolicy]
          cases hrow' : db.findPolicy firmId' tc'.id with
          | none => rfl
          | some row' =>
              obtain ⟨hmem', hfirm', hclass'⟩ := findPolicy_mem hrow'
              have hid : row'.id ≠ row.id := by
                intro hid
                have heq := Rows.eq_of_key h.policyIds hmem' hmem hid
                have htcid : tc'.id = tc.id := by
                  rw [← hclass', ← hclass, heq]
                have htc := h.key_eq (findTaskClass_mem hfind').1 (findTaskClass_mem hfind).1 htcid
                refine hne ⟨?_, ?_⟩
                · rw [← hfirm', ← hfirm, heq]
                · rw [← (findTaskClass_mem hfind').2, ← (findTaskClass_mem hfind).2, htc]
              rw [Option.map_some, if_neg hid]

theorem Valid.policyOf_insertPolicy (h : db.Valid) {row : PolicyRecord}
    (hfind : db.findTaskClass key = some tc) (hclass : row.taskClassId = tc.id)
    (hnone : db.findPolicy row.firmId tc.id = none) (firmId' : Uuid) (key' : String) :
    (db.insertPolicy row).policyOf firmId' key' =
      if firmId' = row.firmId ∧ key' = key then some row else db.policyOf firmId' key' := by
  show ((db.findTaskClass key').bind fun tc => (db.insertPolicy row).findPolicy firmId' tc.id) = _
  split
  · next heq =>
      rw [heq.1, heq.2, hfind, Option.bind_some, findPolicy_insertPolicy, hnone, hclass]
      simp
  · next hne =>
      unfold policyOf
      cases hfind' : db.findTaskClass key' with
      | none => rfl
      | some tc' =>
          rw [Option.bind_some, Option.bind_some, findPolicy_insertPolicy]
          have hkey : (row.firmId, row.taskClassId) ≠ (firmId', tc'.id) := by
            intro hkey
            obtain ⟨hfirm, hid⟩ := Prod.mk.inj hkey
            have htc := h.key_eq (findTaskClass_mem hfind').1 (findTaskClass_mem hfind).1
              (hid.symm.trans hclass)
            refine hne ⟨hfirm.symm, ?_⟩
            rw [← (findTaskClass_mem hfind').2, ← (findTaskClass_mem hfind).2, htc]
          rw [if_neg hkey, Option.or_none]

end

/-- The acknowledgements after the policy of one class was stored. -/
theorem acknowledgedOf_stored {db' : AdminDb} {firmId : Uuid} {key : String} {row : PolicyRecord}
    (h : ∀ key', db'.policyOf firmId key' =
      if key' = key then some row else db.policyOf firmId key') :
    db'.acknowledgedOf firmId =
      Function.update (db.acknowledgedOf firmId) key row.acknowledgedModels := by
  funext key'
  unfold acknowledgedOf
  rw [h]
  by_cases hkey : key' = key
  · subst hkey
    rw [if_pos rfl, Function.update_self]
    rfl
  · rw [if_neg hkey, Function.update_of_ne hkey]

end AdminDb

end VibeRouter
