import VibeRouter.Policy.Effective
import VibeRouter.Policy.Gates

/-! # From one firm's export to another firm's policies

An export names models where a policy has their ids, and an import looks the names up again and
gates each policy.  For policies that pass the gate the import succeeds, and the second firm then
selects models and limits requests as the first does.  Role rules are not part of an export. -/

namespace VibeRouter

open Effects Admin

namespace AdminDb

variable {db : AdminDb} {firmId : Uuid}

/-- The gate of a save has nothing against the stored policies of a firm. -/
def SaveGatePasses (db : AdminDb) (firmId : Uuid) : Prop :=
  ∀ row ∈ db.firmPolicies firmId, ∀ tc ∈ db.taskClasses, tc.id = row.taskClassId →
    ∀ id ∈ row.boundIds, ∃ model ∈ db.models, model.id = id ∧
      configTimeViolation model tc.toClassContract = none ∧
      (model.thirdPartyHosted = true → model.canonicalId ∈ row.acknowledgedModels)

/-- The ranges in which every writer keeps its rows. -/
structure InRange (db : AdminDb) (firmId : Uuid) : Prop where
  requires : ∀ tc ∈ db.taskClasses, ∃ fields, tc.requires = .obj fields
  defaultMaxTokens : ∀ tc ∈ db.taskClasses, 0 < tc.defaultMaxTokens
  maxTokensOverride : ∀ row ∈ db.firmPolicies firmId, ∀ n, row.maxTokensOverride = some n → 0 < n

/-! ### Names of models -/

/-- The name an export gives a model. -/
def nameOf (db : AdminDb) (id : Uuid) : String :=
  ((JsMap.ofList (db.models.map fun m => (m.id, m.canonicalId))).get id).getD "unknown"

theorem ModelKeys.nameOf (h : db.ModelKeys) {m : ModelRecord} (hm : m ∈ db.models) :
    db.nameOf m.id = m.canonicalId := by
  have hnodup : ((db.models.map fun m => (m.id, m.canonicalId)).map Prod.fst).Nodup := by
    rw [List.map_map]
    exact h.ids
  unfold AdminDb.nameOf
  rw [JsMap.get_ofList hnodup (List.mem_map.2 ⟨m, hm, rfl⟩)]
  rfl

/-- A named model is found again by its name. -/
theorem ModelKeys.catalogFor (h : db.ModelKeys) {m : ModelRecord} (hm : m ∈ db.models)
    {input : SavePolicyInput} (hname : m.canonicalId ∈ input.canonicalIds) :
    (db.catalogFor input).get m.canonicalId = some m := by
  have hfound : m ∈ db.findModels input.canonicalIds :=
    List.mem_filter.2 ⟨hm, decide_eq_true hname⟩
  refine JsMap.get_ofList ?_ (List.mem_map.2 ⟨m, hfound, rfl⟩)
  rw [List.map_map]
  exact h.canonicalIds.sublist (List.filter_sublist.map _)

/-- Ids that go through their names come back. -/
theorem ModelKeys.idsOf (h : db.ModelKeys) {input : SavePolicyInput} {ids : List Uuid}
    (hknown : ∀ id ∈ ids, ∃ m ∈ db.models, m.id = id ∧ m.canonicalId ∈ input.canonicalIds) :
    idsOf (db.catalogFor input) (ids.map db.nameOf) = ids := by
  induction ids with
  | nil => rfl
  | cons id ids ih =>
      obtain ⟨m, hm, hid, hname⟩ := hknown id (List.mem_cons_self ..)
      have hget : ((db.catalogFor input).get (db.nameOf id)).map (fun m => m.id) = some id := by
        rw [← hid, h.nameOf hm, h.catalogFor hm hname]
        rfl
      have hrest := ih fun id' hid' => hknown id' (List.mem_cons_of_mem _ hid')
      unfold VibeRouter.idsOf at hrest ⊢
      simp only [List.map_cons, List.filterMap_cons, hget, hrest]

end AdminDb

/-! ### The entry of one policy -/

/-- Two policies bind the same models, with the same limits. -/
structure SameValues (a b : PolicyValues) : Prop where
  defaultModelId : b.defaultModelId = a.defaultModelId
  allowedModelIds : b.allowedModelIds = a.allowedModelIds
  fallbackChain : b.fallbackChain = a.fallbackChain
  maxTokensOverride : b.maxTokensOverride = a.maxTokensOverride
  temperatureMin : b.temperatureMin = a.temperatureMin
  temperatureMax : b.temperatureMax = a.temperatureMax
  monthlyBudgetCents : b.monthlyBudgetCents = a.monthlyBudgetCents
  enabled : b.enabled = a.enabled

section
variable {db : AdminDb} {firmId second : Uuid} {row : PolicyRecord} {tc : TaskClassRecord}

/-- What an export holds of a policy, as the input of a save for another firm. -/
def inputOf (db : AdminDb) (key : String) (row : PolicyRecord) (second : Uuid) : SavePolicyInput :=
  (exportedPolicy (.ofList (db.models.map fun m => (m.id, m.canonicalId))) key row).toInput second

theorem canonicalIds_inputOf (key : String) :
    (inputOf db key row second).canonicalIds = row.boundIds.map db.nameOf := by
  unfold PolicyValues.boundIds
  rw [List.map_cons, List.map_append]
  rfl

/-- Every model a policy binds is in the catalog, under its name. -/
theorem bound_known (hmodels : db.ModelKeys) (hgate : db.SaveGatePasses firmId)
    (hrow : row ∈ db.firmPolicies firmId) (htc : tc ∈ db.taskClasses) (hclass : tc.id = row.taskClassId)
    {key : String} {id : Uuid} (hid : id ∈ row.boundIds) :
    ∃ m ∈ db.models, m.id = id ∧ m.canonicalId ∈ (inputOf db key row second).canonicalIds := by
  obtain ⟨m, hm, rfl, -⟩ := hgate row hrow tc htc hclass id hid
  refine ⟨m, hm, rfl, ?_⟩
  rw [canonicalIds_inputOf, ← hmodels.nameOf hm]
  exact List.mem_map_of_mem hid

/-- The gate of an import has nothing against a policy that passes the gate of a save, whatever was
acknowledged before. -/
theorem gatePasses_inputOf (hmodels : db.ModelKeys) (hgate : db.SaveGatePasses firmId)
    (hrow : row ∈ db.firmPolicies firmId) (htc : tc ∈ db.taskClasses) (hclass : tc.id = row.taskClassId)
    (key : String) (previous : List String) :
    gatePasses (db.catalogFor (inputOf db key row second)) (some tc.toClassContract) previous
      (inputOf db key row second) = true := by
  refine decide_eq_true (List.flatMap_eq_nil_iff.2 fun name hname => ?_)
  rw [mem_uniq, canonicalIds_inputOf] at hname
  obtain ⟨id, hid, rfl⟩ := List.mem_map.1 hname
  obtain ⟨m, hm, rfl, hviolation, hflagged⟩ := hgate row hrow tc htc hclass id hid
  have hknown : m.canonicalId ∈ (inputOf db key row second).canonicalIds := by
    rw [canonicalIds_inputOf, ← hmodels.nameOf hm]
    exact hname
  rw [hmodels.nameOf hm, modelProblems, hmodels.catalogFor hm hknown]
  dsimp only
  have hacknowledged : ¬(m.thirdPartyHosted = true ∧
      m.canonicalId ∉ previous ++ (inputOf db key row second).acknowledgedModels) := by
    rintro ⟨hhosted, hnot⟩
    exact hnot (List.mem_append_right _ (hflagged hhosted))
  rw [if_neg hacknowledged, hviolation]
  rfl

/-- The values an import stores bind the same models, with the same limits. -/
theorem sameValues_inputOf (hmodels : db.ModelKeys) (hgate : db.SaveGatePasses firmId)
    (hrow : row ∈ db.firmPolicies firmId) (htc : tc ∈ db.taskClasses) (hclass : tc.id = row.taskClassId)
    (key : String) {m : ModelRecord} {e : Option PolicyRecord} {n : ℕ}
    (hm : (db.catalogFor (inputOf db key row second)).get
      (inputOf db key row second).defaultModelCanonicalId = some m) :
    SameValues row.toPolicyValues (savedValues (db.catalogFor (inputOf db key row second)) m e
      n (inputOf db key row second)) := by
  have hknown : ∀ id ∈ row.boundIds, ∃ m ∈ db.models, m.id = id ∧
      m.canonicalId ∈ (inputOf db key row second).canonicalIds := fun id hid =>
    bound_known hmodels hgate hrow htc hclass hid
  refine ⟨?_, ?_, ?_, rfl, rfl, rfl, rfl, rfl⟩
  · obtain ⟨m', hm', hid, hname⟩ := hknown row.defaultModelId (List.mem_cons_self ..)
    have hget := hmodels.catalogFor hm' hname
    have hdefault : (inputOf db key row second).defaultModelCanonicalId = m'.canonicalId := by
      rw [← hmodels.nameOf hm', hid]
      rfl
    rw [hdefault, hget] at hm
    cases hm
    exact hid
  · exact hmodels.idsOf fun id hid => hknown id (List.mem_cons_of_mem _ (List.mem_append_left _ hid))
  · exact hmodels.idsOf fun id hid => hknown id (List.mem_cons_of_mem _ (List.mem_append_right _ hid))

end

/-! ### Decisions -/

/-- Two firms get the same decisions for a task class: both are refused for the same reason, or the
same models are selected, within the same limits and budget, and a role is refused for both if
their role rules are the same. -/
def SameDecisions [Platform] (first second : Except Thrown EffectivePolicy) : Prop :=
  match first, second with
  | .error e, .error e' => e' = e
  | .ok a, .ok b => (∀ env, selectModel b env = selectModel a env) ∧
      (∀ env, applyLimits b env = applyLimits a env) ∧
      b.policy.monthlyBudgetCents = a.policy.monthlyBudgetCents ∧
      (b.roleRules = a.roleRules → ∀ role, checkRole b role = checkRole a role)
  | _, _ => False

section
variable {db : AdminDb} {first second : Uuid} {key : String} {a b : PolicyRecord}

theorem exists_of_policyOf (h : db.policyOf first key = some a) :
    ∃ tc, db.findTaskClass key = some tc ∧ db.findPolicy first tc.id = some a :=
  Option.bind_eq_some_iff.1 h

theorem effectivePolicy_same [Platform] (ha : db.policyOf first key = some a)
    (hb : db.policyOf second key = some b) (h : SameValues a.toPolicyValues b.toPolicyValues)
    (settings : FirmSettings) :
    SameDecisions (db.effectivePolicy first key settings) (db.effectivePolicy second key settings) := by
  obtain ⟨tc, htc, ha⟩ := exists_of_policyOf ha
  obtain ⟨tc', htc', hb⟩ := exists_of_policyOf hb
  rw [htc] at htc'
  obtain rfl : tc = tc' := Option.some.inj htc'
  have hids : PolicyEngine.wantedIds b.toRow = PolicyEngine.wantedIds a.toRow := by
    unfold PolicyEngine.wantedIds PolicyRecord.toRow
    rw [h.defaultModelId, h.allowedModelIds, h.fallbackChain]
  unfold AdminDb.effectivePolicy
  rw [htc]
  simp only [ha, hb, h.enabled]
  split
  · rfl
  · split
    · next hnone =>
        split
        · rfl
        · next m hm =>
            rw [hids, h.defaultModelId] at hm
            exact absurd (hnone.symm.trans hm) (Option.some_ne_none m).symm
    · next m hm =>
        split
        · next hnone =>
            rw [hids, h.defaultModelId] at hnone
            exact absurd (hm.symm.trans hnone) (Option.some_ne_none m)
        · next m' hm' =>
            have hm'' := hm'
            rw [hids, h.defaultModelId] at hm''
            obtain rfl : m = m' := Option.some.inj (hm.symm.trans hm'')
            have hrules : SameRules
                { taskClass := tc.toRow, policy := a.toRow, defaultModel := m,
                  modelsById := ModelsById.ofRows (db.modelRows (PolicyEngine.wantedIds a.toRow)),
                  roleRules := .ofList ((db.roleRows a.id).map fun r => (r.role, r.allowed)),
                  firmSettings := settings, default_known := hm }
                { taskClass := tc.toRow, policy := b.toRow, defaultModel := m,
                  modelsById := ModelsById.ofRows (db.modelRows (PolicyEngine.wantedIds b.toRow)),
                  roleRules := .ofList ((db.roleRows b.id).map fun r => (r.role, r.allowed)),
                  firmSettings := settings, default_known := hm' } :=
              ⟨rfl, h.defaultModelId, h.allowedModelIds, h.fallbackChain, h.maxTokensOverride,
                h.temperatureMin, h.temperatureMax,
                congrArg (Option.map Int.toNat) h.monthlyBudgetCents, rfl, by simp only [hids], rfl⟩
            exact ⟨hrules.selectModel, hrules.applyLimits, hrules.monthlyBudgetCents, hrules.checkRole⟩

end

/-! ### The export -/

section
variable {u : Unit} {q : AdminSession} {db : AdminDb} {firmId second : Uuid}

open AdminSession

theorem exportPolicies_spec (firmId : Uuid) :
    (exportPolicies firmId).wp env (fun _ _ => True) (fun r _ q' => Same q q' ∧
      ∀ data, r = .ok data → ∃ classes : List TaskClassRecord, classes.Perm q.db.taskClasses ∧
        data = exported classes (q.db.firmPolicies firmId) q.db.models) u q := by
  simp only [exportPolicies, op, Code.wp_bind, Code.wp_perform]
  refine ⟨trivial, fun firm _ => ?_⟩
  have hsame : Same q (env.next q (.findFirm firmId) firm) := same_next firm rfl
  generalize env.next q (.findFirm firmId) firm = q₁ at hsame
  cases firm with
  | none =>
      refine ⟨hsame, fun data hdata => ?_⟩
      cases hdata
  | some firm =>
      simp only [Code.wp_bind, Code.wp_perform, Code.wp_pure]
      refine ⟨trivial, fun classes hclasses => ⟨trivial, fun rows hrows => ⟨trivial,
        fun models hmodels => ⟨?_, fun data hdata => ⟨classes, ?_, ?_⟩⟩⟩⟩⟩
      · exact ((hsame.trans (same_next classes rfl)).trans (same_next rows rfl)).trans
          (same_next models rfl)
      · replace hclasses : classes.Perm q₁.db.taskClasses := hclasses
        rw [← hsame.db]
        exact hclasses
      · replace hrows : rows = q₁.db.firmPolicies firmId := hrows
        replace hmodels : models = q₁.db.models := hmodels
        cases hdata
        rw [hrows, hmodels, hsame.db]

variable {classes : List TaskClassRecord}

/-- The key an export gives the class of a policy. -/
theorem classKey_iff (hdb : db.Valid) (hclasses : classes.Perm db.taskClasses) {id : Uuid}
    {key : String} :
    (JsMap.ofList (classes.map fun c => (c.id, c.key))).get id = some key ↔
      ∃ tc ∈ db.taskClasses, tc.id = id ∧ tc.key = key := by
  constructor
  · intro h
    obtain ⟨tc, htc, heq⟩ := List.mem_map.1 (JsMap.mem_of_get_ofList h)
    obtain ⟨hid, hkey⟩ := Prod.mk.inj heq
    exact ⟨tc, hclasses.mem_iff.1 htc, hid, hkey⟩
  · rintro ⟨tc, htc, rfl, rfl⟩
    refine JsMap.get_ofList ?_ (List.mem_map.2 ⟨tc, hclasses.mem_iff.2 htc, rfl⟩)
    rw [List.map_map]
    exact (hclasses.map _).nodup_iff.2 hdb.classIds

/-- The policies of an export, as inputs of saves for another firm. -/
def inputsOf (data : PolicyExport) (second : Uuid) : List SavePolicyInput :=
  data.policies.map fun p => p.toInput second

theorem mem_inputsOf (hdb : db.Valid) (hclasses : classes.Perm db.taskClasses)
    {input : SavePolicyInput} :
    input ∈ inputsOf (exported classes (db.firmPolicies firmId) db.models) second ↔
      ∃ row ∈ db.firmPolicies firmId, ∃ tc ∈ db.taskClasses, tc.id = row.taskClassId ∧
        input = inputOf db tc.key row second := by
  unfold inputsOf exported
  simp only [List.mem_map, List.mem_filterMap, Option.map_eq_some_iff, classKey_iff hdb hclasses]
  constructor
  · rintro ⟨p, ⟨row, hrow, key, ⟨tc, htc, hid, rfl⟩, rfl⟩, rfl⟩
    exact ⟨row, hrow, tc, htc, hid, rfl⟩
  · rintro ⟨row, hrow, tc, htc, hid, rfl⟩
    exact ⟨_, ⟨row, hrow, tc.key, ⟨tc, htc, hid, rfl⟩, rfl⟩, rfl⟩

/-- A firm has one policy for each class. -/
theorem inputsOf_nodup (hdb : db.Valid) (hclasses : classes.Perm db.taskClasses) :
    ((inputsOf (exported classes (db.firmPolicies firmId) db.models) second).map
      fun input => input.taskClassKey).Nodup := by
  have hkeys : (inputsOf (exported classes (db.firmPolicies firmId) db.models) second).map
      (fun input => input.taskClassKey) = (db.firmPolicies firmId).filterMap fun row =>
        (JsMap.ofList (classes.map fun c => (c.id, c.key))).get row.taskClassId := by
    unfold inputsOf exported
    rw [List.map_map, List.map_filterMap]
    refine List.filterMap_congr fun row _ => ?_
    rw [Option.map_map]
    exact Option.map_id'
  rw [hkeys]
  have hrows : (db.firmPolicies firmId).Nodup :=
    (List.Nodup.of_map _ hdb.policyIds).filter _
  rw [List.Nodup, List.pairwise_filterMap]
  refine hrows.imp_of_mem ?_
  intro a b ha hb hne key hkey key' hkey' heq
  subst heq
  obtain ⟨tc, htc, hid, hk⟩ := (classKey_iff hdb hclasses).1 hkey
  obtain ⟨tc', htc', hid', hk'⟩ := (classKey_iff hdb hclasses).1 hkey'
  have hclass : tc = tc' := Rows.eq_of_key hdb.classKeys htc htc' (hk.trans hk'.symm)
  obtain ⟨hmem, hfirm⟩ := List.mem_filter.1 ha
  obtain ⟨hmem', hfirm'⟩ := List.mem_filter.1 hb
  refine hne (Rows.eq_of_key hdb.policyKeys hmem hmem' ?_)
  rw [of_decide_eq_true hfirm, of_decide_eq_true hfirm', ← hid, ← hid', hclass]

end

/-! ### The import -/

theorem tighter_self (s : Sensitivity) : tighter s s = s := by
  unfold tighter
  rw [if_neg (Nat.lt_irrefl _)]

section
variable {db : AdminDb} {firmId second : Uuid} {classes : List TaskClassRecord}

/-- The classes of an export are stored as they are. -/
theorem classKept_exported (hdb : db.Valid) {tc : TaskClassRecord} (htc : tc ∈ db.taskClasses) :
    db.ClassKept (exportedClass tc) := by
  exact ⟨tc, hdb.findTaskClass_of_mem htc, rfl, rfl, rfl, tighter_self _⟩

/-- Entries that are stored already change nothing that a class asks. -/
theorem contractsAfter_kept {cs : List ExportedClass} (h : ∀ c ∈ cs, db.ClassKept c) :
    contractsAfter db.contractOf cs = db.contractOf := by
  induction cs with
  | nil => rfl
  | cons c cs ih =>
      obtain ⟨tc, hfind, -, hrequires, -, hsensitivity⟩ := h c (List.mem_cons_self ..)
      have hcontract : db.contractOf c.key = some tc.toClassContract := by
        unfold AdminDb.contractOf
        rw [hfind]
        rfl
      have hafter : contractAfter c (some tc.toClassContract) = tc.toClassContract := by
        unfold contractAfter
        simp only [hsensitivity, ← hrequires]
      unfold contractsAfter
      rw [hcontract, hafter, ← hcontract, Function.update_eq_self]
      exact ih fun c' hc' => h c' (List.mem_cons_of_mem _ hc')

theorem gatesPass_of_forall {catalogFor : SavePolicyInput → Catalog}
    {contracts : String → Option ClassContract} {inputs : List SavePolicyInput}
    (h : ∀ input ∈ inputs, ∀ previous, gatePasses (catalogFor input) (contracts input.taskClassKey)
      previous input = true) (acknowledged : String → List String) :
    gatesPass catalogFor contracts acknowledged inputs = true := by
  induction inputs generalizing acknowledged with
  | nil => rfl
  | cons input inputs ih =>
      unfold gatesPass
      dsimp only
      rw [h input (List.mem_cons_self ..), Bool.true_and]
      exact ih (fun input' hinput' => h input' (List.mem_cons_of_mem _ hinput')) _

theorem importPasses_exported (hdb : db.Valid) (hmodels : db.ModelKeys)
    (hgate : db.SaveGatePasses firmId) (hclasses : classes.Perm db.taskClasses) :
    db.ImportPasses second (exported classes (db.firmPolicies firmId) db.models) := by
  have hkept : ∀ c ∈ (exported classes (db.firmPolicies firmId) db.models).taskClasses,
      db.ClassKept c := by
    intro c hc
    obtain ⟨tc, htc, rfl⟩ := List.mem_map.1 hc
    exact classKept_exported hdb (hclasses.mem_iff.1 htc)
  unfold AdminDb.ImportPasses
  rw [contractsAfter_kept hkept]
  refine gatesPass_of_forall ?_ _
  intro input hinput previous
  obtain ⟨row, hrow, tc, htc, hid, rfl⟩ := (mem_inputsOf hdb hclasses).1 hinput
  have hcontract : db.contractOf tc.key = some tc.toClassContract := by
    unfold AdminDb.contractOf
    rw [hdb.findTaskClass_of_mem htc]
    rfl
  show gatePasses _ (db.contractOf tc.key) previous _ = true
  rw [hcontract]
  exact gatePasses_inputOf hmodels hgate hrow htc hid tc.key previous

/-- The schema accepts what is exported. -/
theorem exportSchema_exported (hrange : db.InRange firmId) (hclasses : classes.Perm db.taskClasses) :
    exportSchema (exported classes (db.firmPolicies firmId) db.models) =
      .ok (exported classes (db.firmPolicies firmId) db.models) := by
  have hclass : ∀ c ∈ (exported classes (db.firmPolicies firmId) db.models).taskClasses, ∀ i,
      classIssues c i = [] := by
    intro c hc i
    obtain ⟨tc, htc, rfl⟩ := List.mem_map.1 hc
    obtain ⟨fields, hfields⟩ := hrange.requires tc (hclasses.mem_iff.1 htc)
    have htokens := hrange.defaultMaxTokens tc (hclasses.mem_iff.1 htc)
    have hrequires : (exportedClass tc).requires = .obj fields := hfields
    have hpositive : ¬(exportedClass tc).defaultMaxTokens ≤ 0 := by
      show ¬tc.defaultMaxTokens ≤ 0
      omega
    unfold classIssues
    rw [hrequires, if_neg hpositive]
    rfl
  have hpolicy : ∀ p ∈ (exported classes (db.firmPolicies firmId) db.models).policies, ∀ i,
      policyIssues p i = [] := by
    intro p hp i
    obtain ⟨row, hrow, hkey⟩ := List.mem_filterMap.1 hp
    obtain ⟨key, -, rfl⟩ := Option.map_eq_some_iff.1 hkey
    unfold policyIssues
    split
    · rfl
    · next n hn =>
        have hpositive := hrange.maxTokensOverride row hrow n hn
        rw [if_neg (by omega)]
  have hnone : ((exported classes (db.firmPolicies firmId) db.models).taskClasses.zipIdx.flatMap
      fun c => classIssues c.1 c.2) ++
      ((exported classes (db.firmPolicies firmId) db.models).policies.zipIdx.flatMap
        fun p => policyIssues p.1 p.2) = [] := by
    rw [List.append_eq_nil_iff, List.flatMap_eq_nil_iff, List.flatMap_eq_nil_iff]
    exact ⟨fun c hc => hclass c.1 (List.fst_mem_of_mem_zipIdx hc) c.2,
      fun p hp => hpolicy p.1 (List.fst_mem_of_mem_zipIdx hp) p.2⟩
  unfold exportSchema
  rw [hnone]

end

section
variable {db : AdminDb} {first second : Uuid}

open AdminSession

/-- **An export carries the decisions of a firm.**  For a firm whose policies pass the gate of a
save, importing its export for another firm succeeds; for each class the first firm has a policy
for, requests then get the same decisions from both, the role rules apart, which stay those of the
policy of the second firm; for every other class the second firm keeps what it had. -/
theorem import_of_export [Platform] (hdb : db.Valid) (hmodels : db.ModelKeys) (hne : second ≠ first)
    (hgate : db.SaveGatePasses first) (hrange : db.InRange first) {data : PolicyExport} {u u' : Unit}
    {q₀ q : AdminSession} {r : Except Thrown (ℕ × ℕ)}
    (hexport : Prog.Run env (exportPolicies first u) { db := db } (.ret (.ok data, u)) q₀)
    (himport : Prog.Run env (importPolicies second (exportSchema data) u') { db := q₀.db }
      (.ret (r, u')) q) :
    (∃ counts, r = .ok counts) ∧ ∀ key,
      (db.policyOf first key ≠ none → ∀ settings,
        SameDecisions (q.db.effectivePolicy first key settings)
          (q.db.effectivePolicy second key settings)) ∧
      (db.policyOf first key = none → q.db.policyOf second key = db.policyOf second key) := by
  have hexported := Prog.post_of_run (exportPolicies_spec (u := u) (q := { db := db }) first) hexport
  obtain ⟨hsame, hdata⟩ := hexported
  obtain ⟨classes, hclasses, hdata⟩ := hdata data rfl
  replace hclasses : classes.Perm db.taskClasses := hclasses
  replace hdata : data = exported classes (db.firmPolicies first) db.models := hdata
  have hdb₀ : q₀.db = db := hsame.db
  rw [hdb₀, hdata, exportSchema_exported hrange hclasses] at himport
  have himported := Prog.post_of_run (importPolicies_spec (u := u') (q := { db := db }) second
    (.ok (exported classes (db.firmPolicies first) db.models)) hdb rfl id) himport
  replace himported : Imported second (.ok (exported classes (db.firmPolicies first) db.models))
    r.isOk { db := db } q := himported
  have hok := (himported.passed _ rfl).2 (importPasses_exported hdb hmodels hgate hclasses)
  obtain ⟨q₁, hkept, hall⟩ := himported.stored _ rfl hok
  have hdb₁ : q₁.db = db := by
    refine (hkept.kept fun c hc => ?_).1
    obtain ⟨tc, htc, rfl⟩ := List.mem_map.1 hc
    exact classKept_exported hdb (hclasses.mem_iff.1 htc)
  replace hall : StoredAll second (inputsOf (exported classes (db.firmPolicies first) db.models)
    second) q₁ q := hall
  refine ⟨?_, fun key => ⟨fun hpolicy settings => ?_, fun hnone => ?_⟩⟩
  · cases r with
    | error e => cases hok
    | ok counts => exact ⟨counts, rfl⟩
  · obtain ⟨row, hrow⟩ := Option.ne_none_iff_exists'.1 hpolicy
    obtain ⟨tc, htc, hfound⟩ := exists_of_policyOf hrow
    obtain ⟨hmem, hfirm, hclass⟩ := AdminDb.findPolicy_mem hfound
    obtain ⟨htcmem, hkey⟩ := AdminDb.findTaskClass_mem htc
    have hrow' : row ∈ db.firmPolicies first := List.mem_filter.2 ⟨hmem, decide_eq_true hfirm⟩
    have hinput : inputOf db tc.key row second ∈
        inputsOf (exported classes (db.firmPolicies first) db.models) second :=
      (mem_inputsOf hdb hclasses).2 ⟨row, hrow', tc, htcmem, hclass.symm, rfl⟩
    obtain ⟨row', m, existing, now, hstored, hm, hvalues⟩ :=
      hall.stored (inputsOf_nodup hdb hclasses) _ hinput
    replace hstored : q.db.policyOf second tc.key = some row' := hstored
    rw [hdb₁] at hm hvalues
    have hsameValues := sameValues_inputOf (e := existing) (n := now) hmodels hgate hrow'
      htcmem hclass.symm tc.key hm
    rw [← hvalues] at hsameValues
    have hfirst : q.db.policyOf first key = some row := by
      rw [hall.others first key fun h => absurd h.symm hne, hdb₁]
      exact hrow
    rw [hkey] at hstored
    exact effectivePolicy_same hfirst hstored hsameValues settings
  · rw [hall.others second key, hdb₁]
    rintro - input hinput rfl
    obtain ⟨row, hrow, tc, htc, hclass, rfl⟩ := (mem_inputsOf hdb hclasses).1 hinput
    have hfind := hdb.findTaskClass_of_mem htc
    obtain ⟨hmem, hfirm⟩ := List.mem_filter.1 hrow
    have hfound : db.findPolicy first tc.id = some row := by
      rw [AdminDb.findPolicy_eq, hclass, ← of_decide_eq_true hfirm]
      exact Rows.find_of_mem hdb.policyKeys hmem
    have hpolicy : db.policyOf first tc.key = some row := by
      unfold AdminDb.policyOf
      rw [hfind]
      exact hfound
    rw [show (inputOf db tc.key row second).taskClassKey = tc.key from rfl, hpolicy] at hnone
    cases hnone

end

/-! ### Sample firms -/

namespace Sample

def otherFirm : Uuid := ⟨"f2", by decide⟩

def staffPolicy : PolicyRecord where
  id := ⟨"b1", by decide⟩
  firmId := adminFirm
  taskClassId := adminClass.id
  defaultModelId := adminModel.id
  allowedModelIds := []
  fallbackChain := []
  maxTokensOverride := none
  temperatureMin := none
  temperatureMax := none
  monthlyBudgetCents := none
  enabled := true
  acknowledgedModels := []
  acknowledgedAt := none

/-- The policy of the first firm is not for its staff. -/
def twoFirms : AdminDb where
  taskClasses := [adminClass]
  models := [adminModel]
  policies := [staffPolicy]
  firms := [⟨adminFirm, {}⟩, ⟨otherFirm, {}⟩]
  rolePolicies := [⟨staffPolicy.id, .staff, false⟩]

def staffExport : PolicyExport := exported [adminClass] [staffPolicy] [adminModel]

theorem twoFirms_firm : some ⟨adminFirm, {}⟩ = twoFirms.findFirm adminFirm := by decide

theorem twoFirms_policies : [staffPolicy] = twoFirms.firmPolicies adminFirm := by decide

theorem staffExport_run : ∃ q₀, Prog.Run AdminSession.env (exportPolicies adminFirm ())
    { db := twoFirms } (.ret (.ok staffExport, ())) q₀ ∧ q₀.db = twoFirms := by
  refine ⟨_, .step (some ⟨adminFirm, {}⟩) twoFirms_firm (.step [adminClass] (.refl _)
    (.step [staffPolicy] twoFirms_policies (.step [adminModel] rfl (.refl _ _)))), rfl⟩

/-- The policy the import stores for the second firm. -/
def importedPolicy : PolicyRecord := { staffPolicy with id := otherFirm, firmId := otherFirm }

theorem staffImport_run : ∃ q, Prog.Run AdminSession.env
    (importPolicies otherFirm (exportSchema staffExport) ()) { db := twoFirms }
    (.ret (.ok (1, 1), ())) q ∧ q.db = { twoFirms with policies := [staffPolicy, importedPolicy] } := by
  refine ⟨_, .step (some adminClass) rfl (.step () trivial (.step (some adminClass) rfl
    (.step [adminModel] stockedDb_models (.step none ?_ (.step (0 : ℕ) trivial
      (.step otherFirm ?_ (.step () trivial (.step () trivial (.step () trivial
        (.refl _ _)))))))))), ?_⟩
  · rfl
  · intro row hrow
    have hid : row = staffPolicy := List.mem_singleton.1 hrow
    rw [hid]
    decide
  · rfl

theorem twoFirms_valid : twoFirms.Valid where
  classIds := by decide
  classKeys := by decide
  policyIds := by decide
  policyKeys := by decide
  policyClasses := by
    intro row hrow
    refine ⟨adminClass, List.mem_singleton_self _, ?_⟩
    rw [List.mem_singleton.1 hrow]
    rfl

def afterImport : AdminDb := { twoFirms with policies := [staffPolicy, importedPolicy] }

/-- The role is allowed by the policy of a firm after the import. -/
def permitted (firmId : Uuid) (role : UserRole) : Option Bool :=
  match afterImport.effectivePolicy firmId "k" {} with
  | .ok effective => some (checkRole effective (some role)).isOk
  | .error _ => none

theorem staff_permitted :
    permitted adminFirm .staff = some false ∧ permitted otherFirm .staff = some true := by
  decide

theorem effective_of_permitted {firmId : Uuid} {role : UserRole} {ok : Bool}
    (h : permitted firmId role = some ok) : ∃ a, afterImport.effectivePolicy firmId "k" {} = .ok a ∧
      (checkRole a (some role)).isOk = ok := by
  unfold permitted at h
  split at h
  · next a ha => exact ⟨a, ha, Option.some.inj h⟩
  · cases h

/-- The staff of the first firm is refused, the staff of the second is not. -/
theorem role_rules_not_imported : ∃ data q₀ q,
    Prog.Run AdminSession.env (exportPolicies adminFirm ()) { db := twoFirms }
      (.ret (.ok data, ())) q₀ ∧
    Prog.Run AdminSession.env (importPolicies otherFirm (exportSchema data) ()) { db := q₀.db }
      (.ret (.ok (1, 1), ())) q ∧
    ∃ a b, q.db.effectivePolicy adminFirm "k" {} = .ok a ∧
      q.db.effectivePolicy otherFirm "k" {} = .ok b ∧
      (checkRole a (some .staff)).isOk = false ∧ (checkRole b (some .staff)).isOk = true := by
  obtain ⟨q₀, hexport, hdb₀⟩ := staffExport_run
  obtain ⟨q, himport, hdb⟩ := staffImport_run
  obtain ⟨a, ha, hrefused⟩ := effective_of_permitted staff_permitted.1
  obtain ⟨b, hb, hallowed⟩ := effective_of_permitted staff_permitted.2
  refine ⟨staffExport, q₀, q, hexport, hdb₀ ▸ himport, a, b, ?_, ?_, hrefused, hallowed⟩
  · rw [hdb]
    exact ha
  · rw [hdb]
    exact hb

theorem twoFirms_gate : twoFirms.SaveGatePasses adminFirm := by
  intro row hrow tc htc hclass id hid
  rw [← twoFirms_policies] at hrow
  rw [List.mem_singleton.1 hrow] at hid
  rw [List.mem_singleton.1 htc]
  refine ⟨adminModel, List.mem_singleton_self _, (List.mem_singleton.1 hid).symm, by rfl, ?_⟩
  intro hflagged
  cases hflagged

theorem twoFirms_inRange : twoFirms.InRange adminFirm where
  requires := by
    intro tc htc
    rw [List.mem_singleton.1 htc]
    exact ⟨[], rfl⟩
  defaultMaxTokens := by
    intro tc htc
    rw [List.mem_singleton.1 htc]
    decide
  maxTokensOverride := by
    intro row hrow n hn
    rw [← twoFirms_policies] at hrow
    rw [List.mem_singleton.1 hrow] at hn
    cases hn

theorem staffImport_decides : letI := Platform.ofDigests [] adminFirm
    ∃ q : AdminSession, SameDecisions (q.db.effectivePolicy adminFirm "k" {})
      (q.db.effectivePolicy otherFirm "k" {}) := by
  let := Platform.ofDigests [] adminFirm
  obtain ⟨q₀, hexport, hdb₀⟩ := staffExport_run
  obtain ⟨q, himport, hdb⟩ := staffImport_run
  have hpolicy : twoFirms.policyOf adminFirm "k" = some staffPolicy := by decide
  have h := import_of_export twoFirms_valid ⟨by decide, by decide⟩ (by decide) twoFirms_gate
    twoFirms_inRange hexport (hdb₀ ▸ himport)
  exact ⟨q, (h.2 "k").1 (by simp [hpolicy]) {}⟩

end Sample

end VibeRouter
