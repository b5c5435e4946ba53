import VibeRouter.Db.Lookups
import VibeRouter.Policy.Save

/-! # What a failed import leaves behind

An import stores its task classes before any policy is gated, and each policy before the next one
is.  So an import that is refused has changed nothing only if every entry stored until then was
already stored as it is. -/

namespace VibeRouter

open Effects Effects.Code Admin

/-! ### The database during an import -/

/-- A statement that stores something; a trigger stamps the row with the time even if it stores
what was there. -/
def AdminOp.writes : AdminOp → Bool
  | .updateTaskClass _ _ => true
  | .insertTaskClass .. => true
  | .updatePolicy _ _ => true
  | .insertPolicy _ _ _ => true
  | _ => false

/-- `written`: some row was stored; `changed`: some row was stored that was not there. -/
structure AdminSession where
  db : AdminDb
  written : Bool := false
  changed : Prop := False

namespace AdminSession

def next (q : AdminSession) (e : AdminOp) (r : e.Answer) : AdminSession where
  db := AdminOp.apply q.db e r
  written := q.written || e.writes
  changed := q.changed ∨ AdminOp.apply q.db e r ≠ q.db

def env : Env AdminOp AdminOp.Answer AdminSession where
  allows q e r := AdminOp.Allows q.db e r
  next := next

/-- From `q` to `q'` nothing was stored. -/
structure Same (q q' : AdminSession) : Prop where
  db : q'.db = q.db
  written : q'.written = q.written
  changed : q'.changed ↔ q.changed

theorem Same.refl (q : AdminSession) : Same q q := ⟨rfl, rfl, Iff.rfl⟩

theorem Same.trans {q q₁ q₂ : AdminSession} (h : Same q q₁) (h' : Same q₁ q₂) : Same q q₂ :=
  ⟨h'.db.trans h.db, h'.written.trans h.written, h'.changed.trans h.changed⟩

/-- A statement that does not write. -/
theorem same_next {q : AdminSession} {e : AdminOp} (r : e.Answer) (h : e.writes = false) :
    Same q (q.next e r) := by
  have hdb : AdminOp.apply q.db e r = q.db := by
    cases e with
    | updateTaskClass id set => cases h
    | insertTaskClass contract key app description tokens version => cases h
    | updatePolicy id values => cases h
    | insertPolicy firmId taskClassId values => cases h
    | _ => rfl
  refine ⟨hdb, ?_, ?_⟩
  · show (q.written || e.writes) = q.written
    rw [h, Bool.or_false]
  · show q.changed ∨ AdminOp.apply q.db e r ≠ q.db ↔ q.changed
    simp [hdb]

end AdminSession

/-! ### Entries that are already stored -/

/-- What a class asks after an entry for it. -/
def contractAfter (c : ExportedClass) : Option ClassContract → ClassContract
  | some existing => ⟨tighter c.sensitivity existing.sensitivity, c.requires⟩
  | none => c.toClassContract

/-- What the classes ask after the entries `cs`. -/
def contractsAfter (contracts : String → Option ClassContract) :
    List ExportedClass → String → Option ClassContract
  | [] => contracts
  | c :: cs =>
      contractsAfter (Function.update contracts c.key (some (contractAfter c (contracts c.key)))) cs

/-- The gate of `savePolicy`. -/
def gatePasses (byCanonical : Catalog) (contract : Option ClassContract) (previous : List String)
    (input : SavePolicyInput) : Bool :=
  match contract with
  | some tc => policyProblems byCanonical tc (previous ++ input.acknowledgedModels) input = []
  | none => false

/-- All gates, judged on what the classes will ask and what the policies before will have
acknowledged. -/
def gatesPass (catalogFor : SavePolicyInput → Catalog) (contracts : String → Option ClassContract) :
    (String → List String) → List SavePolicyInput → Bool
  | _, [] => true
  | acknowledged, input :: inputs =>
      let previous := acknowledged input.taskClassKey
      gatePasses (catalogFor input) (contracts input.taskClassKey) previous input &&
        gatesPass catalogFor contracts (Function.update acknowledged input.taskClassKey
          (acknowledgedNow (catalogFor input) previous input)) inputs

namespace AdminDb

variable (db : AdminDb)

/-- The class `c` is stored as it is, or tighter. -/
def ClassKept (c : ExportedClass) : Prop :=
  ∃ tc, db.findTaskClass c.key = some tc ∧ tc.description = c.description ∧
    tc.requires = c.requires ∧ tc.defaultMaxTokens = c.defaultMaxTokens ∧
    tighter c.sensitivity tc.sensitivity = tc.sensitivity

def catalogFor (input : SavePolicyInput) : Catalog := catalogOf (db.findModels input.canonicalIds)

/-- The gate on the rows as they are. -/
def Accepts (input : SavePolicyInput) : Prop :=
  gatePasses (db.catalogFor input) (db.contractOf input.taskClassKey)
    (db.acknowledgedOf input.firmId input.taskClassKey) input = true

/-- The policy is stored as it is. -/
def PolicyKept (input : SavePolicyInput) : Prop :=
  db.Accepts input ∧ ∃ row defaultModel, db.policyOf input.firmId input.taskClassKey = some row ∧
    (db.catalogFor input).get input.defaultModelCanonicalId = some defaultModel ∧
    ∀ now, savedValues (db.catalogFor input) defaultModel (some row) now input = row.toPolicyValues

end AdminDb

/-! ### Storing one class -/

/-- What an entry for a task class does. -/
structure ClassStored (c : ExportedClass) (q q' : AdminSession) : Prop where
  valid : q'.db.Valid
  models : q'.db.models = q.db.models
  contracts : q'.db.contractOf =
    Function.update q.db.contractOf c.key (some (contractAfter c (q.db.contractOf c.key)))
  acknowledged : q'.db.acknowledgedOf = q.db.acknowledgedOf
  written : q'.written = true
  kept : q.db.ClassKept c → q'.db = q.db ∧ (q'.changed ↔ q.changed)
  lost : ¬q.db.ClassKept c → q'.changed

open AdminSession

section
variable {u : Unit} {q : AdminSession} {c : ExportedClass}

theorem acknowledgedOf_eq {db db' : AdminDb} (h : ∀ firmId key, db'.policyOf firmId key =
    db.policyOf firmId key) : db'.acknowledgedOf = db.acknowledgedOf := by
  funext firmId key
  unfold AdminDb.acknowledgedOf
  rw [h]

/-- What `importTaskClass` sets in a row. -/
def setOf (c : ExportedClass) (tc : TaskClassRecord) : TaskClassSet where
  description := some c.description
  requires := some c.requires
  defaultMaxTokens := some c.defaultMaxTokens
  sensitivity := some (tighter c.sensitivity tc.sensitivity)

theorem setOf_apply_eq_iff {db : AdminDb} {tc : TaskClassRecord}
    (hfind : db.findTaskClass c.key = some tc) : (setOf c tc).apply tc = tc ↔ db.ClassKept c := by
  constructor
  · intro h
    refine ⟨tc, hfind, ?_, ?_, ?_, ?_⟩
    · exact (congrArg TaskClassRecord.description h).symm
    · exact (congrArg (fun row => row.requires) h).symm
    · exact (congrArg TaskClassRecord.defaultMaxTokens h).symm
    · exact congrArg (fun row => row.sensitivity) h
  · rintro ⟨tc', hfind', hdescription, hrequires, htokens, hsensitivity⟩
    rw [hfind] at hfind'
    cases hfind'
    obtain ⟨⟨sensitivity, requires⟩, id, key, app, description, tokens, version⟩ := tc
    cases hdescription
    cases hrequires
    cases htokens
    simp only at hsensitivity
    simp [TaskClassSet.apply, setOf, hsensitivity]

theorem ClassStored.update {tc : TaskClassRecord} (hq : q.db.Valid)
    (hfind : q.db.findTaskClass c.key = some tc) :
    ClassStored c q (q.next (.updateTaskClass tc.id (setOf c tc)) ()) where
  valid := hq.updateTaskClass _ _
  models := rfl
  contracts := by
    have hcontract : q.db.contractOf c.key = some tc.toClassContract := by
      unfold AdminDb.contractOf
      rw [hfind]
      rfl
    rw [hcontract]
    exact hq.contractOf_updateTaskClass hfind _
  acknowledged := acknowledgedOf_eq fun firmId key => AdminDb.policyOf_updateTaskClass firmId _ _ key
  written := by
    show (q.written || true) = true
    rw [Bool.or_true]
  kept := by
    intro hkept
    have hdb := (hq.updateTaskClass_eq_iff hfind (setOf c tc)).2 ((setOf_apply_eq_iff hfind).2 hkept)
    refine ⟨hdb, ?_⟩
    show q.changed ∨ q.db.updateTaskClass tc.id (setOf c tc) ≠ q.db ↔ q.changed
    simp [hdb]
  lost := by
    intro hlost
    refine .inr fun hdb => hlost ?_
    exact (setOf_apply_eq_iff hfind).1 ((hq.updateTaskClass_eq_iff hfind (setOf c tc)).1 hdb)

theorem ClassStored.insert {id : Uuid} (hq : q.db.Valid) (hnone : q.db.findTaskClass c.key = none)
    (hid : ∀ tc ∈ q.db.taskClasses, tc.id ≠ id) :
    ClassStored c q (q.next (.insertTaskClass c.toClassContract c.key c.app c.description
      c.defaultMaxTokens (some "import")) id) where
  valid := hq.insertTaskClass hid hnone
  models := rfl
  contracts := by
    have hcontract : q.db.contractOf c.key = none := by
      unfold AdminDb.contractOf
      rw [hnone]
      rfl
    rw [hcontract]
    exact AdminDb.contractOf_insertTaskClass hnone
  acknowledged := acknowledgedOf_eq fun firmId key => hq.policyOf_insertTaskClass hid firmId key
  written := by
    show (q.written || true) = true
    rw [Bool.or_true]
  kept := by
    rintro ⟨tc, hfind, -⟩
    rw [hnone] at hfind
    cases hfind
  lost := fun _ => .inr (AdminDb.insertTaskClass_ne _)

/-- The lookup before does not matter. -/
theorem ClassStored.after {q₁ q' : AdminSession} (h : ClassStored c q₁ q') (hsame : Same q q₁) :
    ClassStored c q q' := by
  obtain ⟨db, written, changed⟩ := q
  obtain ⟨db₁, written₁, changed₁⟩ := q₁
  obtain ⟨rfl, rfl, hchanged⟩ := hsame
  exact ⟨h.valid, h.models, h.contracts, h.acknowledged, h.written,
    fun hkept => ⟨(h.kept hkept).1, (h.kept hkept).2.trans hchanged⟩, h.lost⟩

theorem importTaskClass_spec (hq : q.db.Valid) :
    (importTaskClass c).wp env (fun _ _ => True)
      (fun r _ q' => r = .ok () ∧ ClassStored c q q') u q := by
  simp only [importTaskClass, op, wp_bind, wp_perform]
  refine ⟨trivial, fun found hfound => ?_⟩
  replace hfound : found = q.db.findTaskClass c.key := hfound
  have hsame : Same q (env.next q (.findTaskClass c.key) found) := same_next found rfl
  generalize env.next q (.findTaskClass c.key) found = q₁ at hsame
  have hq₁ : q₁.db.Valid := hsame.db ▸ hq
  rw [← hsame.db] at hfound
  cases found with
  | some tc =>
      simp only [wp_perform]
      exact ⟨trivial, fun r _ => ⟨trivial, (ClassStored.update hq₁ hfound.symm).after hsame⟩⟩
  | none =>
      simp only [wp_bind, wp_perform, wp_pure]
      exact ⟨trivial, fun id hid => ⟨trivial, (ClassStored.insert hq₁ hfound.symm hid).after hsame⟩⟩

end

/-! ### Saving one policy -/

/-- What a saved policy does. -/
structure PolicyStored (input : SavePolicyInput) (q q' : AdminSession) : Prop where
  valid : q'.db.Valid
  models : q'.db.models = q.db.models
  classes : q'.db.taskClasses = q.db.taskClasses
  firms : q'.db.firms = q.db.firms
  rolePolicies : q'.db.rolePolicies = q.db.rolePolicies
  stored : ∃ row m now, (∀ firmId key, q'.db.policyOf firmId key =
      if firmId = input.firmId ∧ key = input.taskClassKey then some row
      else q.db.policyOf firmId key) ∧
    (q.db.catalogFor input).get input.defaultModelCanonicalId = some m ∧
    row.toPolicyValues = savedValues (q.db.catalogFor input) m
      (q.db.policyOf input.firmId input.taskClassKey) now input
  written : q'.written = true
  kept : q.db.PolicyKept input → q'.db = q.db ∧ (q'.changed ↔ q.changed)
  lost : ¬q.db.PolicyKept input → q'.changed

section
variable {u : Unit} {q q₁ q' : AdminSession} {input : SavePolicyInput}

/-- What was only read before, and what is only done after, does not matter. -/
theorem PolicyStored.around (h : PolicyStored input q q₁) (hsame : Same q₁ q') :
    PolicyStored input q q' := by
  obtain ⟨db, written, changed⟩ := q'
  obtain ⟨db₁, written₁, changed₁⟩ := q₁
  obtain ⟨rfl, rfl, hchanged⟩ := hsame
  exact ⟨h.valid, h.models, h.classes, h.firms, h.rolePolicies, h.stored, h.written,
    fun hkept => ⟨(h.kept hkept).1, hchanged.trans (h.kept hkept).2⟩,
    fun hlost => hchanged.2 (h.lost hlost)⟩

theorem PolicyStored.after (h : PolicyStored input q₁ q') (hsame : Same q q₁) :
    PolicyStored input q q' := by
  obtain ⟨db, written, changed⟩ := q
  obtain ⟨db₁, written₁, changed₁⟩ := q₁
  obtain ⟨rfl, rfl, hchanged⟩ := hsame
  exact ⟨h.valid, h.models, h.classes, h.firms, h.rolePolicies, h.stored, h.written,
    fun hkept => ⟨(h.kept hkept).1, (h.kept hkept).2.trans hchanged⟩, h.lost⟩

/-- Without problems every model of the policy is in the catalog. -/
theorem known_of_no_problems {byCanonical : Catalog} {tc : ClassContract}
    {acknowledged : List String} (h : policyProblems byCanonical tc acknowledged input = [])
    {id : String} (hid : id ∈ input.canonicalIds) : ∃ m, byCanonical.get id = some m := by
  have hproblems := List.flatMap_eq_nil_iff.1 h id (mem_uniq.2 hid)
  cases hget : byCanonical.get id with
  | none => simp [modelProblems, hget] at hproblems
  | some m => exact ⟨m, rfl⟩

/-- If a row is stored again as it is, then it is so whenever it is stored. -/
theorem savedValues_any_time {byCanonical : Catalog} {m : ModelRecord} {row : PolicyRecord} {now : ℕ}
    (h : savedValues byCanonical m (some row) now input = row.toPolicyValues) (now' : ℕ) :
    savedValues byCanonical m (some row) now' input = row.toPolicyValues := by
  have hmodels : acknowledgedNow byCanonical row.acknowledgedModels input =
      row.acknowledgedModels := congrArg PolicyValues.acknowledgedModels h
  have hat := congrArg PolicyValues.acknowledgedAt h
  have hnewly : newlyAcknowledged byCanonical row.acknowledgedModels input = [] := by
    unfold newlyAcknowledged
    rw [hmodels, List.filter_eq_nil_iff]
    intro id hid
    simpa using hid
  rw [← h]
  simp only [savedValues, Option.map_some, Option.getD_some, Option.bind_some, hnewly, hmodels,
    ne_eq, not_true_eq_false, if_false] at hat ⊢
  by_cases hnone : row.acknowledgedModels = []
  · simp [hnone]
  · rw [if_pos hnone] at hat ⊢
    rw [← hat]
    simp [hnone]

section
variable {tc : TaskClassRecord} {m : ModelRecord} {now : ℕ}

theorem policyOf_eq {db : AdminDb} (hfind : db.findTaskClass input.taskClassKey = some tc) :
    db.policyOf input.firmId input.taskClassKey = db.findPolicy input.firmId tc.id := by
  unfold AdminDb.policyOf
  rw [hfind]
  rfl

theorem acknowledgedOf_found {db : AdminDb}
    (hfind : db.findTaskClass input.taskClassKey = some tc) :
    db.acknowledgedOf input.firmId input.taskClassKey =
      ((db.findPolicy input.firmId tc.id).map fun row => row.acknowledgedModels).getD [] := by
  unfold AdminDb.acknowledgedOf
  rw [policyOf_eq hfind]

theorem PolicyStored.contracts (h : PolicyStored input q q') :
    q'.db.contractOf = q.db.contractOf := by
  funext key
  unfold AdminDb.contractOf AdminDb.findTaskClass
  rw [h.classes]

theorem PolicyStored.acknowledged (h : PolicyStored input q q') :
    q'.db.acknowledgedOf input.firmId =
      Function.update (q.db.acknowledgedOf input.firmId) input.taskClassKey
        (acknowledgedNow (q.db.catalogFor input)
          (q.db.acknowledgedOf input.firmId input.taskClassKey) input) := by
  obtain ⟨row, m, now, hrows, -, hvalues⟩ := h.stored
  rw [AdminDb.acknowledgedOf_stored fun key' => by simpa using hrows input.firmId key', hvalues]
  rfl

theorem PolicyStored.update {row : PolicyRecord} (hq : q.db.Valid) (haccepts : q.db.Accepts input)
    (hfind : q.db.findTaskClass input.taskClassKey = some tc)
    (hrow : q.db.findPolicy input.firmId tc.id = some row)
    (hm : (q.db.catalogFor input).get input.defaultModelCanonicalId = some m) :
    PolicyStored input q (q.next
      (.updatePolicy row.id (savedValues (q.db.catalogFor input) m (some row) now input)) ()) where
  valid := hq.updatePolicy _ _
  models := rfl
  classes := rfl
  firms := rfl
  rolePolicies := rfl
  stored := by
    refine ⟨_, m, now, hq.policyOf_updatePolicy hfind hrow _, hm, ?_⟩
    rw [policyOf_eq hfind, hrow]
  written := by
    show (q.written || true) = true
    rw [Bool.or_true]
  kept := by
    rintro ⟨-, row', m', hrow', hm', hvalues⟩
    rw [policyOf_eq hfind, hrow] at hrow'
    rw [hm] at hm'
    cases hrow'
    cases hm'
    have hdb := (hq.updatePolicy_eq_iff hrow _).2 (hvalues now)
    refine ⟨hdb, ?_⟩
    show q.changed ∨ q.db.updatePolicy row.id _ ≠ q.db ↔ q.changed
    simp [hdb]
  lost := by
    intro hlost
    refine .inr fun hdb => hlost ⟨haccepts, row, m, ?_, hm, ?_⟩
    · rw [policyOf_eq hfind, hrow]
    · exact savedValues_any_time ((hq.updatePolicy_eq_iff hrow _).1 hdb)

theorem PolicyStored.insert {id : Uuid} (hq : q.db.Valid)
    (hm : (q.db.catalogFor input).get input.defaultModelCanonicalId = some m)
    (hfind : q.db.findTaskClass input.taskClassKey = some tc)
    (hnone : q.db.findPolicy input.firmId tc.id = none) (hid : ∀ p ∈ q.db.policies, p.id ≠ id) :
    PolicyStored input q (q.next (.insertPolicy input.firmId tc.id
      (savedValues (q.db.catalogFor input) m none now input)) id) where
  valid := hq.insertPolicy hid hnone ⟨tc, (AdminDb.findTaskClass_mem hfind).1, rfl⟩
  models := rfl
  classes := rfl
  firms := rfl
  rolePolicies := rfl
  stored := by
    refine ⟨_, m, now, hq.policyOf_insertPolicy hfind rfl hnone, hm, ?_⟩
    rw [policyOf_eq hfind, hnone]
  written := by
    show (q.written || true) = true
    rw [Bool.or_true]
  kept := by
    rintro ⟨-, row, m, hrow, -⟩
    rw [policyOf_eq hfind, hnone] at hrow
    cases hrow
  lost := fun _ => .inr (AdminDb.insertPolicy_ne _)

theorem storePolicy_spec (hq : q.db.Valid) (haccepts : q.db.Accepts input)
    (hfind : q.db.findTaskClass input.taskClassKey = some tc)
    (hm : (q.db.catalogFor input).get input.defaultModelCanonicalId = some m) :
    (storePolicy input.firmId tc.id (q.db.findPolicy input.firmId tc.id)
      (savedValues (q.db.catalogFor input) m (q.db.findPolicy input.firmId tc.id) now input)).wp env
      (fun _ _ => True) (fun r _ q' => (∃ id, r = .ok id) ∧ PolicyStored input q q') u q := by
  cases hrow : q.db.findPolicy input.firmId tc.id with
  | some row =>
      simp only [storePolicy, op, wp_bind, wp_perform, wp_pure]
      exact ⟨trivial, fun r _ => ⟨⟨row.id, rfl⟩, .update hq haccepts hfind hrow hm⟩⟩
  | none =>
      simp only [storePolicy, op, wp_perform]
      exact ⟨trivial, fun id hid => ⟨⟨id, rfl⟩, .insert hq hm hfind hrow hid⟩⟩

end

/-- What `savePolicy` does: its gate refuses, or the policy is stored. -/
def Saved (input : SavePolicyInput) (r : Except Thrown Uuid) (q q' : AdminSession) : Prop :=
  match r with
  | .error _ => ¬q.db.Accepts input ∧ Same q q'
  | .ok _ => q.db.Accepts input ∧ PolicyStored input q q'

theorem Saved.after {r : Except Thrown Uuid} (h : Saved input r q₁ q') (hsame : Same q q₁) :
    Saved input r q q' := by
  cases r with
  | error e =>
      obtain ⟨hrefused, hunchanged⟩ := h
      exact ⟨hsame.db ▸ hrefused, hsame.trans hunchanged⟩
  | ok id =>
      obtain ⟨haccepts, hstored⟩ := h
      exact ⟨hsame.db ▸ haccepts, hstored.after hsame⟩

theorem saveGated_spec {tc : TaskClassRecord} (hq : q.db.Valid)
    (hfind : q.db.findTaskClass input.taskClassKey = some tc) :
    (saveGated input tc (q.db.catalogFor input) (q.db.findPolicy input.firmId tc.id)).wp env
      (fun _ _ => True) (fun r _ q' => Saved input r q q') u q := by
  have hgate : q.db.Accepts input ↔ policyProblems (q.db.catalogFor input) tc.toClassContract
      (((q.db.findPolicy input.firmId tc.id).map fun row => row.acknowledgedModels).getD [] ++
        input.acknowledgedModels) input = [] := by
    unfold AdminDb.Accepts AdminDb.contractOf
    rw [acknowledgedOf_found hfind, hfind]
    exact decide_eq_true_iff
  unfold saveGated
  by_cases hproblems : q.db.Accepts input
  · have hnone := hgate.1 hproblems
    obtain ⟨m, hm⟩ := known_of_no_problems hnone (List.mem_cons_self ..)
    simp only [hnone, hm, op, wp_bind, wp_perform, wp_pure]
    refine ⟨trivial, fun now _ => ?_⟩
    have hnow : Same q (env.next q .now now) := same_next now rfl
    generalize env.next q .now now = q₁ at hnow
    rw [← hnow.db] at hq hproblems hfind hm ⊢
    refine wp_mono (storePolicy_spec hq hproblems hfind hm) ?_
    rintro r u' q₂ ⟨⟨id, rfl⟩, hstored⟩
    refine ⟨trivial, fun r₁ _ => ⟨trivial, fun r₂ _ => ⟨hnow.db ▸ hproblems, ?_⟩⟩⟩
    exact (hstored.after hnow).around ((same_next r₁ rfl).trans (same_next r₂ rfl))
  · have hrefused := mt hgate.2 hproblems
    dsimp only
    split
    · next hnone _ => exact absurd hnone hrefused
    · exact ⟨hproblems, .refl q⟩

theorem savePolicy_spec (hq : q.db.Valid) :
    (savePolicy input).wp env (fun _ _ => True) (fun r _ q' => Saved input r q q') u q := by
  simp only [savePolicy, op, wp_bind, wp_perform]
  refine ⟨trivial, fun found hfound => ?_⟩
  replace hfound : found = q.db.findTaskClass input.taskClassKey := hfound
  have hsame : Same q (env.next q (.findTaskClass input.taskClassKey) found) := same_next found rfl
  generalize env.next q (.findTaskClass input.taskClassKey) found = q₁ at hsame
  cases found with
  | none =>
      refine ⟨fun haccepts => ?_, hsame⟩
      unfold AdminDb.Accepts AdminDb.contractOf at haccepts
      rw [← hfound] at haccepts
      cases haccepts
  | some tc =>
      simp only [wp_bind, wp_perform]
      refine ⟨trivial, fun rows hrows => ⟨trivial, fun existing hexisting => ?_⟩⟩
      replace hrows : rows = q₁.db.findModels input.canonicalIds := hrows
      replace hexisting : existing = q₁.db.findPolicy input.firmId tc.id := hexisting
      have hread : Same q (env.next (env.next q₁ (.findModels input.canonicalIds) rows)
          (.findPolicy input.firmId tc.id) existing) :=
        (hsame.trans (same_next rows rfl)).trans (same_next existing rfl)
      generalize env.next (env.next q₁ _ rows) _ existing = q₂ at hread
      rw [hsame.db, ← hread.db] at hrows hexisting
      rw [← hread.db] at hq hfound
      subst hrows hexisting
      refine wp_mono (saveGated_spec hq hfound.symm) ?_
      intro r u' q' hsaved
      exact hsaved.after hread

end

/-! ### Storing the classes -/

/-- What the entries for the task classes do. -/
structure ClassesStored (cs : List ExportedClass) (q q' : AdminSession) : Prop where
  valid : q'.db.Valid
  models : q'.db.models = q.db.models
  contracts : q'.db.contractOf = contractsAfter q.db.contractOf cs
  acknowledged : q'.db.acknowledgedOf = q.db.acknowledgedOf
  written : q'.written = (q.written || decide (cs ≠ []))
  kept : (∀ c ∈ cs, q.db.ClassKept c) → q'.db = q.db ∧ (q'.changed ↔ q.changed)
  lost : (¬∀ c ∈ cs, q.db.ClassKept c) → q'.changed
  mono : q.changed → q'.changed

section
variable {u : Unit} {q : AdminSession}

theorem ClassStored.mono {c : ExportedClass} {q' : AdminSession} (h : ClassStored c q q')
    (hchanged : q.changed) : q'.changed := by
  by_cases hkept : q.db.ClassKept c
  · exact (h.kept hkept).2.2 hchanged
  · exact h.lost hkept

theorem ClassesStored.cons {c : ExportedClass} {cs : List ExportedClass} {q₁ q' : AdminSession}
    (h : ClassStored c q q₁) (hs : ClassesStored cs q₁ q') : ClassesStored (c :: cs) q q' where
  valid := hs.valid
  models := hs.models.trans h.models
  contracts := by
    rw [hs.contracts, h.contracts]
    rfl
  acknowledged := hs.acknowledged.trans h.acknowledged
  written := by
    rw [hs.written, h.written]
    simp
  kept := by
    intro hkept
    obtain ⟨hdb, hchanged⟩ := h.kept (hkept c (List.mem_cons_self ..))
    have hrest : ∀ c ∈ cs, q₁.db.ClassKept c := by
      intro c' hc'
      rw [hdb]
      exact hkept c' (List.mem_cons_of_mem _ hc')
    obtain ⟨hdb', hchanged'⟩ := hs.kept hrest
    exact ⟨hdb'.trans hdb, hchanged'.trans hchanged⟩
  lost := by
    intro hlost
    by_cases hkept : q.db.ClassKept c
    · refine hs.lost fun hrest => hlost fun c' hc' => ?_
      rcases List.mem_cons.1 hc' with rfl | hc'
      · exact hkept
      · have hc := hrest c' hc'
        rwa [(h.kept hkept).1] at hc
    · exact hs.mono (h.lost hkept)
  mono := fun hchanged => hs.mono (h.mono hchanged)

theorem importTaskClasses_spec (cs : List ExportedClass) (hq : q.db.Valid) :
    (importTaskClasses cs).wp env (fun _ _ => True)
      (fun r _ q' => r = .ok () ∧ ClassesStored cs q q') u q := by
  induction cs generalizing u q with
  | nil =>
      refine ⟨rfl, hq, rfl, rfl, rfl, ?_, fun _ => ⟨rfl, Iff.rfl⟩, fun hlost => ?_, id⟩
      · simp
      · exact absurd (fun c hc => by cases hc) hlost
  | cons c cs ih =>
      unfold importTaskClasses
      rw [wp_bind]
      refine wp_mono (importTaskClass_spec hq) ?_
      rintro r u' q₁ ⟨rfl, hstored⟩
      refine wp_mono (ih hstored.valid) ?_
      rintro r u'' q' ⟨hr, hrest⟩
      exact ⟨hr, hrest.cons hstored⟩

end

/-! ### Saving the policies -/

namespace AdminDb

variable (db : AdminDb)

/-- A policy is refused, and those before it are stored as they are. -/
def RefusedUnchanged : List SavePolicyInput → Prop
  | [] => False
  | input :: inputs => ¬db.Accepts input ∨ db.PolicyKept input ∧ RefusedUnchanged inputs

/-- The first policy is refused. -/
def RefusedAtOnce (inputs : List SavePolicyInput) : Prop :=
  ∃ input rest, inputs = input :: rest ∧ ¬db.Accepts input

variable {db}

theorem catalogFor_eq {db' : AdminDb} (h : db'.models = db.models) :
    db'.catalogFor = db.catalogFor := by
  funext input
  unfold catalogFor findModels
  rw [h]

end AdminDb

/-- All `inputs` are stored, and no other policy has changed. -/
structure StoredAll (firmId : Uuid) (inputs : List SavePolicyInput) (q q' : AdminSession) : Prop where
  models : q'.db.models = q.db.models
  classes : q'.db.taskClasses = q.db.taskClasses
  firms : q'.db.firms = q.db.firms
  rolePolicies : q'.db.rolePolicies = q.db.rolePolicies
  others : ∀ firmId' key, (firmId' = firmId → ∀ input ∈ inputs, input.taskClassKey ≠ key) →
    q'.db.policyOf firmId' key = q.db.policyOf firmId' key
  stored : (inputs.map fun input => input.taskClassKey).Nodup → ∀ input ∈ inputs,
    ∃ row m existing now, q'.db.policyOf firmId input.taskClassKey = some row ∧
      (q.db.catalogFor input).get input.defaultModelCanonicalId = some m ∧
      row.toPolicyValues = savedValues (q.db.catalogFor input) m existing now input

/-- What saving policies one after the other does; `ok` unless a gate refuses one. -/
structure PoliciesSaved (firmId : Uuid) (inputs : List SavePolicyInput) (ok : Bool)
    (q q' : AdminSession) : Prop where
  passed : gatesPass q.db.catalogFor q.db.contractOf (q.db.acknowledgedOf firmId) inputs = ok
  changed : ok = false → (q'.changed ↔ q.changed ∨ ¬q.db.RefusedUnchanged inputs)
  written : ok = false → (q'.written = false ↔ q.written = false ∧ q.db.RefusedAtOnce inputs)
  all : ok = true → StoredAll firmId inputs q q'

section
variable {u : Unit} {q q₁ q' : AdminSession} {firmId : Uuid} {input : SavePolicyInput}
  {inputs : List SavePolicyInput} {ok : Bool}

theorem PoliciesSaved.refused (hfirm : input.firmId = firmId) (hrefused : ¬q.db.Accepts input)
    (hsame : Same q q') : PoliciesSaved firmId (input :: inputs) false q q' where
  passed := by
    subst hfirm
    unfold AdminDb.Accepts at hrefused
    simp [gatesPass, hrefused]
  changed _ := by
    rw [hsame.changed]
    simp [AdminDb.RefusedUnchanged, hrefused]
  written _ := by
    rw [hsame.written]
    exact ⟨fun hwritten => ⟨hwritten, input, inputs, rfl, hrefused⟩, fun h => h.1⟩
  all := fun h => by cases h

/-- One more policy before the others. -/
theorem PolicyStored.all (hstored : PolicyStored input q q₁) (hfirm : input.firmId = firmId)
    (h : StoredAll firmId inputs q₁ q') : StoredAll firmId (input :: inputs) q q' where
  models := h.models.trans hstored.models
  classes := h.classes.trans hstored.classes
  firms := h.firms.trans hstored.firms
  rolePolicies := h.rolePolicies.trans hstored.rolePolicies
  others := by
    intro firmId' key hkey
    obtain ⟨row, m, now, hrows, -⟩ := hstored.stored
    have hrest := h.others firmId' key fun hf input' hinput' =>
      hkey hf input' (List.mem_cons_of_mem _ hinput')
    rw [hrest, hrows, if_neg]
    rintro ⟨hf, rfl⟩
    exact hkey (hf.trans hfirm) input (List.mem_cons_self ..) rfl
  stored := by
    intro hnodup input' hinput'
    rw [List.map_cons, List.nodup_cons] at hnodup
    rcases List.mem_cons.1 hinput' with rfl | hinput'
    · obtain ⟨row, m, now, hrows, hm, hvalues⟩ := hstored.stored
      refine ⟨row, m, _, now, ?_, hm, hvalues⟩
      rw [h.others firmId input'.taskClassKey, hrows, if_pos ⟨hfirm.symm, rfl⟩]
      intro _ other hother hkey
      exact hnodup.1 (List.mem_map.2 ⟨other, hother, hkey⟩)
    · have hrest := h.stored hnodup.2 input' hinput'
      rw [AdminDb.catalogFor_eq hstored.models] at hrest
      exact hrest

theorem PoliciesSaved.cons (hfirm : input.firmId = firmId) (haccepts : q.db.Accepts input)
    (hstored : PolicyStored input q q₁) (h : PoliciesSaved firmId inputs ok q₁ q') :
    PoliciesSaved firmId (input :: inputs) ok q q' where
  passed := by
    subst hfirm
    rw [← h.passed, AdminDb.catalogFor_eq hstored.models, hstored.contracts, hstored.acknowledged]
    unfold AdminDb.Accepts at haccepts
    simp [gatesPass, haccepts]
  changed hfailed := by
    rw [h.changed hfailed]
    by_cases hkept : q.db.PolicyKept input
    · obtain ⟨hdb, hchanged⟩ := hstored.kept hkept
      rw [hdb, hchanged]
      simp [AdminDb.RefusedUnchanged, haccepts, hkept]
    · simp [AdminDb.RefusedUnchanged, haccepts, hkept, hstored.lost hkept]
  written hfailed := by
    rw [h.written hfailed, hstored.written]
    constructor
    · intro hwritten
      cases hwritten.1
    · rintro ⟨-, input', rest, hinputs, hrefused⟩
      cases hinputs
      exact absurd haccepts hrefused
  all hok := hstored.all hfirm (h.all hok)

theorem savePolicies_spec (ps : List ExportedPolicy) (hq : q.db.Valid) :
    (savePolicies firmId ps).wp env (fun _ _ => True) (fun r _ q' =>
      PoliciesSaved firmId (ps.map fun p => p.toInput firmId) r.isOk q q') u q := by
  induction ps generalizing u q with
  | nil =>
      refine ⟨rfl, fun h => ?_, fun h => ?_, fun _ => ?_⟩
      · cases h
      · cases h
      · exact ⟨rfl, rfl, rfl, rfl, fun _ _ _ => rfl, fun _ input hinput => by cases hinput⟩
  | cons p ps ih =>
      simp only [savePolicies, wp_bind]
      refine wp_mono (savePolicy_spec hq) ?_
      intro r u' q₁ hsaved
      cases r with
      | error e => exact .refused rfl hsaved.1 hsaved.2
      | ok id =>
          refine wp_mono (ih hsaved.2.valid) ?_
          intro r u'' q' hrest
          cases r with
          | error e => exact .cons rfl hsaved.1 hsaved.2 hrest
          | ok count => exact .cons rfl hsaved.1 hsaved.2 hrest

end

/-! ### The import -/

namespace AdminDb

variable (db : AdminDb) (firmId : Uuid)

/-- All gates of an import pass, each on what is stored before it. -/
def ImportPasses (data : PolicyExport) : Prop :=
  gatesPass db.catalogFor (contractsAfter db.contractOf data.taskClasses) (db.acknowledgedOf firmId)
    (data.policies.map fun p => p.toInput firmId) = true

/-- An import of `raw` is not refused after a row has changed. -/
def ImportHarmless : ImportDocument → Prop
  | .error _ => True
  | .ok data => db.ImportPasses firmId data ∨ (∀ c ∈ data.taskClasses, db.ClassKept c) ∧
      db.RefusedUnchanged (data.policies.map fun p => p.toInput firmId)

/-- An import of `raw` is not refused after a row was written. -/
def ImportUnwritten : ImportDocument → Prop
  | .error _ => True
  | .ok data => db.ImportPasses firmId data ∨ data.taskClasses = [] ∧
      db.RefusedAtOnce (data.policies.map fun p => p.toInput firmId)

end AdminDb

/-- What an import does to the rows, if it throws. -/
structure Imported (firmId : Uuid) (raw : ImportDocument) (ok : Bool) (q q' : AdminSession) :
    Prop where
  changed : (ok = false → ¬q'.changed) ↔ q.db.ImportHarmless firmId raw
  written : (ok = false → q'.written = false) ↔ q.db.ImportUnwritten firmId raw
  passed : ∀ data, raw = .ok data → (ok = true ↔ q.db.ImportPasses firmId data)
  stored : ∀ data, raw = .ok data → ok = true → ∃ q₁, ClassesStored data.taskClasses q q₁ ∧
    StoredAll firmId (data.policies.map fun p => p.toInput firmId) q₁ q'

theorem Imported.ofSaved {q q₁ q' : AdminSession} {firmId : Uuid} {data : PolicyExport} {ok : Bool}
    (hwritten : q.written = false) (hchanged : ¬q.changed)
    (h : ClassesStored data.taskClasses q q₁)
    (hs : PoliciesSaved firmId (data.policies.map fun p => p.toInput firmId) ok q₁ q') :
    Imported firmId (.ok data) ok q q' := by
  have hpassed := hs.passed
  rw [AdminDb.catalogFor_eq h.models, h.contracts, h.acknowledged] at hpassed
  cases ok with
  | true =>
      refine ⟨⟨fun _ => .inl hpassed, fun _ h => by cases h⟩,
        ⟨fun _ => .inl hpassed, fun _ h => by cases h⟩, ?_, ?_⟩
      · intro data' hdata
        cases hdata
        exact ⟨fun _ => hpassed, fun _ => rfl⟩
      · intro data' hdata _
        cases hdata
        exact ⟨q₁, h, hs.all rfl⟩
  | false =>
      have hnot : ¬q.db.ImportPasses firmId data := by
        unfold AdminDb.ImportPasses
        rw [hpassed]
        exact Bool.false_ne_true
      refine ⟨?_, ?_, ?_, fun _ _ h => by cases h⟩
      · rw [AdminDb.ImportHarmless, or_iff_right hnot, hs.changed rfl]
        by_cases hkept : ∀ c ∈ data.taskClasses, q.db.ClassKept c
        · obtain ⟨hdb, hsame⟩ := h.kept hkept
          rw [hdb, hsame]
          simpa [hchanged] using fun _ => hkept
        · simp [h.lost hkept, hkept]
      · rw [AdminDb.ImportUnwritten, or_iff_right hnot, hs.written rfl, h.written, hwritten]
        by_cases hnone : data.taskClasses = []
        · have hkept : ∀ c ∈ data.taskClasses, q.db.ClassKept c := by
            rw [hnone]
            intro c hc
            cases hc
          rw [(h.kept hkept).1]
          simp [hnone]
        · simp [hnone]
      · intro data' hdata
        cases hdata
        exact ⟨fun h => absurd h Bool.false_ne_true, fun h => absurd h hnot⟩

theorem importPolicies_spec {u : Unit} {q : AdminSession} (firmId : Uuid) (raw : ImportDocument)
    (hq : q.db.Valid) (hwritten : q.written = false) (hchanged : ¬q.changed) :
    (importPolicies firmId raw).wp env (fun _ _ => True)
      (fun r _ q' => Imported firmId raw r.isOk q q') u q := by
  cases raw with
  | error issue =>
      refine ⟨⟨fun _ => trivial, fun _ _ => hchanged⟩, ⟨fun _ => trivial, fun _ _ => hwritten⟩,
        fun data hdata => ?_, fun data hdata => ?_⟩
      · cases hdata
      · cases hdata
  | ok data =>
      simp only [importPolicies, op, wp_bind, wp_perform, wp_pure]
      refine wp_mono (importTaskClasses_spec data.taskClasses hq) ?_
      rintro r u' q₁ ⟨rfl, hclasses⟩
      refine wp_mono (savePolicies_spec data.policies hclasses.valid) ?_
      intro r u'' q₂ hsaved
      have himported := Imported.ofSaved hwritten hchanged hclasses hsaved
      cases r with
      | error e => exact himported
      | ok count =>
          refine ⟨trivial, fun r _ => ?_⟩
          refine ⟨⟨fun _ => himported.changed.1 (fun h => by cases h), fun _ h => by cases h⟩,
            ⟨fun _ => himported.written.1 (fun h => by cases h), fun _ h => by cases h⟩,
            himported.passed, fun data' hdata hok => ?_⟩
          obtain ⟨q₁, hclasses, hall⟩ := himported.stored data' hdata hok
          exact ⟨q₁, hclasses, hall.models, hall.classes, hall.firms, hall.rolePolicies, hall.others,
            hall.stored⟩

/-- Rows that never changed are as they were. -/
theorem unchanged_of_run {α : Type} {p p' : Prog AdminOp AdminOp.Answer α} {q q' : AdminSession}
    (hrun : Prog.Run env p q p' q') : ¬q'.changed → q'.db = q.db ∧ ¬q.changed := by
  induction hrun with
  | refl p q => exact fun h => ⟨rfl, h⟩
  | step r _ _ ih =>
      intro h
      obtain ⟨hdb, hnext⟩ := ih h
      have hsame := not_or.1 hnext
      exact ⟨hdb.trans (not_not.1 hsame.2), hsame.1⟩

/-- **What a failed import leaves.**  For any tables, an import that throws has changed no row
exactly if its document is not an export, or all its gates pass, or every class it lists is stored
as it is and so is every policy before the first that is refused; it has written no row exactly if
its document is not an export, or all its gates pass, or it lists no class and its first policy is
refused. -/
theorem import_unchanged_iff {db : AdminDb} (hdb : db.Valid) (firmId : Uuid) (raw : ImportDocument)
    {r : Except Thrown (ℕ × ℕ)} {u : Unit} {q : AdminSession}
    (hrun : Prog.Run env (importPolicies firmId raw u) { db := db } (.ret (r, u)) q) :
    ((r.isOk = false → ¬q.changed) ↔ db.ImportHarmless firmId raw) ∧
    ((r.isOk = false → q.written = false) ↔ db.ImportUnwritten firmId raw) ∧
    (¬q.changed → q.db = db) := by
  have hwp := importPolicies_spec (u := u) (q := { db := db }) firmId raw hdb rfl id
  have himported := Prog.post_of_run hwp hrun
  replace himported : Imported firmId raw r.isOk { db := db } q := himported
  exact ⟨himported.changed, himported.written, fun h => (unchanged_of_run hrun h).1⟩

/-! ### Sample imports -/

namespace Sample

def adminClass : TaskClassRecord where
  id := ⟨"c1", by decide⟩
  key := "k"
  app := "app"
  description := "d"
  sensitivity := .cloud_allowed
  requires := .obj []
  defaultMaxTokens := 1024
  registeredByAppVersion := none

def adminDb : AdminDb := { taskClasses := [adminClass], models := [], policies := [] }

theorem adminDb_valid : adminDb.Valid where
  classIds := by decide
  classKeys := by decide
  policyIds := by decide
  policyKeys := by decide
  policyClasses := by
    intro row hrow
    cases hrow

/-- It tightens the class, and binds it to a model that is not in the catalog. -/
def tightening : PolicyExport where
  taskClasses := [{ key := "k", app := "app", description := "d", sensitivity := .local_only,
                    requires := .obj [], defaultMaxTokens := 1024 }]
  policies := [{ taskClassKey := "k", defaultModel := "m", allowedModels := [], fallbackChain := [],
                 maxTokensOverride := none, temperatureMin := none, temperatureMax := none,
                 monthlyBudgetCents := none, enabled := true }]

def adminFirm : Uuid := ⟨"f1", by decide⟩

/-- The class as `tightening` stores it. -/
def tightened : TaskClassRecord := { adminClass with sensitivity := .local_only }

/-- The import of `tightening`: the class is updated, then the policy is refused. -/
theorem tightening_run : ∃ e q, Prog.Run env (importPolicies adminFirm (.ok tightening) ())
    { db := adminDb } (.ret (.error e, ())) q ∧ q.db.taskClasses = [tightened] := by
  refine ⟨_, _, .step (some adminClass) rfl (.step () trivial (.step (some tightened) rfl
    (.step [] rfl (.step none rfl (.refl _ _))))), ?_⟩
  rfl

theorem tightened_ne : adminDb.taskClasses ≠ [tightened] := by
  intro h
  have hclass := (List.cons.inj h).1
  have hsensitivity : adminClass.sensitivity = tightened.sensitivity := by rw [← hclass]
  cases hsensitivity

/-- An import that throws has tightened a task class. -/
theorem import_not_atomic :
    ¬∀ (db : AdminDb) (firmId : Uuid) (raw : ImportDocument) (e : Thrown) (u : Unit)
      (q : AdminSession), db.Valid →
      Prog.Run env (importPolicies firmId raw u) { db := db } (.ret (.error e, u)) q →
      q.db.taskClasses = db.taskClasses ∧ q.db.policies = db.policies := by
  intro h
  obtain ⟨e, q, hrun, hclasses⟩ := tightening_run
  obtain ⟨hsame, -⟩ := h adminDb adminFirm (.ok tightening) e () q adminDb_valid hrun
  exact tightened_ne (hsame.symm.trans hclasses)

theorem tightening_not_harmless : ¬adminDb.ImportHarmless adminFirm (.ok tightening) := by
  intro hharmless
  obtain ⟨e, q, hrun, hclasses⟩ := tightening_run
  obtain ⟨hchanged, -, hdb⟩ := import_unchanged_iff adminDb_valid adminFirm (.ok tightening) hrun
  have hsame := hdb (hchanged.2 hharmless rfl)
  exact tightened_ne ((congrArg AdminDb.taskClasses hsame).symm.trans hclasses)

end Sample

end VibeRouter
