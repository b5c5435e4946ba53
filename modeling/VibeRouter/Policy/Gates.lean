import VibeRouter.Db.Resolved
import VibeRouter.Policy.Import

/-! # The gates of saving and of serving agree

`configTimeViolation` judges a model when a policy is saved, `modelViolation` when a request is
served.  Without bans, for a model that is not sunset and a request that needs nothing its class
does not need, they agree; so what is saved can be served, and what `findInvalidBindings` reports
is what serving would refuse. -/

namespace VibeRouter

open Effects Admin

/-! ### What each gate asks -/

/-- The capabilities a class may ask for. -/
abbrev classCapabilities : List CapabilityKey := [.tools, .json_schema, .vision]

/-- A request needs nothing the class does not need. -/
def ImpliesOnly (tc : ClassContract) (env : AIRequest) : Prop :=
  ∀ k ∈ requestRequires env, tc.wants k = true

/-- The model is where the class must be served, and has what the class needs. -/
structure Suits (model : ModelRow) (tc : ClassContract) : Prop where
  place : tc.sensitivity = .local_only → isLocalKind model.providerKind = true
  able : ∀ k ∈ classCapabilities, tc.wants k = true → effectiveCapabilities model k = true

/-- Firm settings without bans. -/
structure NoBans (settings : FirmSettings) : Prop where
  kinds : settings.banned_provider_kinds = []
  patterns : settings.banned_model_patterns = []

section
variable {model : ModelRecord} {tc : ClassContract}

theorem configTimeViolation_eq_none_iff :
    configTimeViolation model tc = none ↔ Suits model.toModelRow tc := by
  unfold configTimeViolation
  constructor
  · intro h
    split at h
    · cases h
    · next hplace =>
        dsimp only at h
        split at h
        · next hmissing =>
            refine ⟨fun hlocal => ?_, fun k hk hwants => ?_⟩
            · by_contra hkind
              exact hplace ⟨hlocal, by simpa using hkind⟩
            · rw [List.filter_eq_nil_iff] at hmissing
              simpa using hmissing k (List.mem_filter.2 ⟨hk, hwants⟩)
        · cases h
  · intro h
    have hplace : ¬(tc.sensitivity = .local_only ∧ (!isLocalKind model.providerKind) = true) := by
      rintro ⟨hlocal, hkind⟩
      rw [h.place hlocal] at hkind
      cases hkind
    rw [if_neg hplace]
    dsimp only
    rw [if_pos]
    rw [List.filter_eq_nil_iff]
    intro k hk
    obtain ⟨hk, hwants⟩ := List.mem_filter.1 hk
    simpa using h.able k hk hwants

end

section
variable [Platform] {model : ModelRow} {effective : EffectivePolicy} {needs : List CapabilityKey}

theorem modelBanned_noBans {settings : FirmSettings} (h : NoBans settings) :
    modelBanned model settings = .ok none := by
  unfold modelBanned
  rw [h.kinds, h.patterns]
  rfl

theorem modelViolation_eq_none_iff (hbans : NoBans effective.firmSettings)
    (hsunset : model.status ≠ .sunset) :
    modelViolation model effective needs = .ok none ↔
      (effective.taskClass.sensitivity = .local_only → isLocalKind model.providerKind = true) ∧
        ∀ k ∈ needs, effectiveCapabilities model k = true := by
  unfold modelViolation
  rw [if_neg hsunset, modelBanned_noBans hbans]
  have hmissing : 0 < (missingCapabilities model needs).length ↔
      ¬∀ k ∈ needs, effectiveCapabilities model k = true := by
    rw [List.length_pos_iff, Ne, missingCapabilities, List.filter_eq_nil_iff]
    simp
  by_cases hplace : effective.taskClass.sensitivity = .local_only ∧
      (!isLocalKind model.providerKind) = true
  · rw [if_pos hplace]
    have hkind : isLocalKind model.providerKind = false := by simpa using hplace.2
    simp [hplace.1, hkind, pure, Except.pure]
  · rw [if_neg hplace]
    have hserved : effective.taskClass.sensitivity = .local_only →
        isLocalKind model.providerKind = true := by
      intro hlocal
      by_contra hkind
      exact hplace ⟨hlocal, by simpa using hkind⟩
    simp only [bind, Except.bind, pure, Except.pure]
    by_cases hlack : 0 < (missingCapabilities model needs).length
    · rw [if_pos hlack]
      simp [hmissing.1 hlack]
    · rw [if_neg hlack]
      simpa using ⟨hserved, not_not.1 (mt hmissing.2 hlack)⟩

end

section
variable {effective : EffectivePolicy} {tc : TaskClassRecord} {env : AIRequest}

theorem mem_addNeed {needs : List CapabilityKey} {wanted : Bool} {key k : CapabilityKey} :
    k ∈ addNeed needs wanted key ↔ k ∈ needs ∨ wanted = true ∧ k = key := by
  unfold addNeed
  split
  · next h => simp [h.1]
  · next h =>
      constructor
      · exact Or.inl
      · rintro (hk | ⟨hwanted, rfl⟩)
        · exact hk
        · by_contra hk
          exact h ⟨hwanted, hk⟩

theorem mem_requiredCapabilities (h : effective.taskClass = tc.toRow) {k : CapabilityKey} :
    k ∈ requiredCapabilities effective env ↔
      k ∈ requestRequires env ∨ k ∈ classCapabilities ∧ tc.wants k = true := by
  have htools : effective.taskClass.requires.tools = tc.wants .tools := by rw [h]; rfl
  have hjson : effective.taskClass.requires.json_schema = tc.wants .json_schema := by rw [h]; rfl
  have hvision : effective.taskClass.requires.vision = tc.wants .vision := by rw [h]; rfl
  unfold requiredCapabilities classRequires
  rw [mem_addNeed, mem_addNeed, mem_addNeed, htools, hjson, hvision]
  cases k with
  | tools => simp
  | json_schema => simp
  | vision => simp
  | caching => simp
  | reasoning => simp

theorem requestRequires_subset {k : CapabilityKey} (h : k ∈ requestRequires env) :
    k ∈ classCapabilities := by
  unfold requestRequires at h
  rcases List.mem_append.1 h with h | h
  · rcases List.mem_append.1 h with h | h
    · split at h
      · simp [List.mem_singleton.1 h]
      · cases h
    · split at h
      · simp [List.mem_singleton.1 h]
      · cases h
  · split at h
    · simp [List.mem_singleton.1 h]
    · cases h

end

/-! ### The gates -/

section
variable [Platform] {model : ModelRow} {effective : EffectivePolicy} {tc : TaskClassRecord}

/-- For a request that needs nothing its class does not need, the gate of serving asks what the
gate of saving asks. -/
theorem serves_iff_suits (hclass : effective.taskClass = tc.toRow)
    (hbans : NoBans effective.firmSettings) (hsunset : model.status ≠ .sunset) {env : AIRequest}
    (henv : ImpliesOnly tc.toClassContract env) :
    modelViolation model effective (requiredCapabilities effective env) = .ok none ↔
      Suits model tc.toClassContract := by
  have hsensitivity : effective.taskClass.sensitivity = tc.sensitivity := by rw [hclass]; rfl
  rw [modelViolation_eq_none_iff hbans hsunset, hsensitivity]
  constructor
  · rintro ⟨hplace, hable⟩
    refine ⟨hplace, fun k hk hwants => hable k ?_⟩
    exact (mem_requiredCapabilities hclass).2 (.inr ⟨hk, hwants⟩)
  · intro h
    refine ⟨h.place, fun k hk => ?_⟩
    rcases (mem_requiredCapabilities hclass).1 hk with hk | ⟨hk, hwants⟩
    · exact h.able k (requestRequires_subset hk) (henv k hk)
    · exact h.able k hk hwants

end

/-- A request that needs nothing by itself. -/
def plainRequest : AIRequest where
  taskClass := ""
  messages := []
  metadata := { app := "" }

theorem plainRequest_impliesOnly (tc : ClassContract) : ImpliesOnly tc plainRequest := by
  intro k hk
  cases hk

/-- A policy for the class `tc` without bans. -/
def plainPolicy (tc : TaskClassRecord) (model : ModelRow) : EffectivePolicy where
  taskClass := tc.toRow
  policy := { id := tc.id, firmId := tc.id, taskClassId := tc.id, defaultModelId := model.id }
  defaultModel := model
  modelsById := .ofRows [model]
  roleRules := .empty
  firmSettings := {}
  default_known := JsMap.get_set_self _ _ _

section
variable [Platform] {tc : TaskClassRecord}

/-- Serving accepts the model for every request that needs nothing its class does not need, if no
firm bans are in the way. -/
def CanServe (tc : TaskClassRecord) (model : ModelRow) : Prop :=
  ∀ (effective : EffectivePolicy) (env : AIRequest), effective.taskClass = tc.toRow →
    NoBans effective.firmSettings → ImpliesOnly tc.toClassContract env →
    modelViolation model effective (requiredCapabilities effective env) = .ok none

theorem canServe_iff_suits {model : ModelRow} (hsunset : model.status ≠ .sunset) :
    CanServe tc model ↔ Suits model tc.toClassContract := by
  constructor
  · intro h
    have hplain := h (plainPolicy tc model) plainRequest rfl ⟨rfl, rfl⟩
      (plainRequest_impliesOnly tc.toClassContract)
    exact (serves_iff_suits rfl ⟨rfl, rfl⟩ hsunset
      (plainRequest_impliesOnly tc.toClassContract)).1 hplain
  · intro h effective env hclass hbans henv
    exact (serves_iff_suits hclass hbans hsunset henv).2 h

end

/-! ### What a save binds -/

namespace AdminDb

/-- The keys of the table of models. -/
structure ModelKeys (db : AdminDb) : Prop where
  ids : (db.models.map fun row => row.id).Nodup
  canonicalIds : (db.models.map fun row => row.canonicalId).Nodup

end AdminDb

section
variable {input : SavePolicyInput} {db : AdminDb}

/-- A model of the catalog of a save is a row that it asked for. -/
theorem mem_of_catalogFor {id : String} {m : ModelRecord}
    (h : (db.catalogFor input).get id = some m) : m ∈ db.models ∧ m.canonicalId = id := by
  have hpair := JsMap.mem_of_get_ofList h
  obtain ⟨m', hm', heq⟩ := List.mem_map.1 hpair
  obtain ⟨rfl, rfl⟩ := Prod.mk.inj heq
  exact ⟨(List.mem_filter.1 hm').1, rfl⟩

theorem no_problems_of_accepts {tc : TaskClassRecord}
    (hfind : db.findTaskClass input.taskClassKey = some tc) (haccepts : db.Accepts input) :
    policyProblems (db.catalogFor input) tc.toClassContract
      (db.acknowledgedOf input.firmId input.taskClassKey ++ input.acknowledgedModels) input = [] := by
  unfold AdminDb.Accepts AdminDb.contractOf at haccepts
  rw [hfind] at haccepts
  exact of_decide_eq_true haccepts

theorem suits_of_accepts {tc : TaskClassRecord} (hfind : db.findTaskClass input.taskClassKey = some tc)
    (haccepts : db.Accepts input) {id : String} (hid : id ∈ input.canonicalIds) {m : ModelRecord}
    (hm : (db.catalogFor input).get id = some m) : Suits m.toModelRow tc.toClassContract := by
  have hproblems := no_problems_of_accepts hfind haccepts
  have hnone := List.flatMap_eq_nil_iff.1 hproblems id (mem_uniq.2 hid)
  rw [modelProblems, hm] at hnone
  have hviolation := (List.append_eq_nil_iff.1 hnone).1
  rw [← configTimeViolation_eq_none_iff]
  simpa using hviolation

/-- What is bound by the values of a save was in its catalog. -/
theorem known_of_bound {byCanonical : Catalog} {m : ModelRecord} {existing : Option PolicyRecord}
    {now : ℕ} (hm : byCanonical.get input.defaultModelCanonicalId = some m) {id : Uuid}
    (hid : id ∈ (savedValues byCanonical m existing now input).boundIds) :
    ∃ c ∈ input.canonicalIds, ∃ m', byCanonical.get c = some m' ∧ m'.id = id := by
  have hids : ∀ cs : List String, id ∈ idsOf byCanonical cs →
      ∃ c ∈ cs, ∃ m', byCanonical.get c = some m' ∧ m'.id = id := by
    intro cs hmem
    obtain ⟨c, hc, hget⟩ := List.mem_filterMap.1 hmem
    obtain ⟨m', hm', heq⟩ := Option.map_eq_some_iff.1 hget
    exact ⟨c, hc, m', hm', heq⟩
  rcases List.mem_cons.1 hid with rfl | hid
  · exact ⟨_, List.mem_cons_self .., m, hm, rfl⟩
  · rcases List.mem_append.1 hid with hid | hid
    · obtain ⟨c, hc, hknown⟩ := hids _ hid
      exact ⟨c, List.mem_cons_of_mem _ (List.mem_append_left _ hc), hknown⟩
    · obtain ⟨c, hc, hknown⟩ := hids _ hid
      exact ⟨c, List.mem_cons_of_mem _ (List.mem_append_right _ hc), hknown⟩

/-- What was in the catalog of a save is bound by its values. -/
theorem bound_of_known {byCanonical : Catalog} {m : ModelRecord} {existing : Option PolicyRecord}
    {now : ℕ} (hm : byCanonical.get input.defaultModelCanonicalId = some m) {c : String}
    (hc : c ∈ input.canonicalIds) {m' : ModelRecord} (hm' : byCanonical.get c = some m') :
    m'.id ∈ (savedValues byCanonical m existing now input).boundIds := by
  have hids : ∀ cs : List String, c ∈ cs → m'.id ∈ idsOf byCanonical cs := by
    intro cs hmem
    refine List.mem_filterMap.2 ⟨c, hmem, ?_⟩
    rw [hm']
    rfl
  rcases List.mem_cons.1 hc with rfl | hc
  · rw [hm] at hm'
    cases hm'
    exact List.mem_cons_self ..
  · rcases List.mem_append.1 hc with hc | hc
    · exact List.mem_cons_of_mem _ (List.mem_append_left _ (hids _ hc))
    · exact List.mem_cons_of_mem _ (List.mem_append_right _ (hids _ hc))

end

/-! ### What is reported -/

section
variable {q : AdminSession} {u : Unit}

open AdminSession

theorem findInvalidBindings_spec :
    findInvalidBindings.wp env (fun _ _ => True) (fun r _ _ => r = .ok (invalidBindings
      (.ofList (q.db.models.map fun m => (m.id, m)))
      (.ofList (q.db.taskClasses.map fun c => (c.id, c))) q.db.policies)) u q := by
  simp only [findInvalidBindings, op, Code.wp_bind, Code.wp_perform]
  refine ⟨trivial, fun rows hrows => ?_⟩
  replace hrows : rows = q.db.policies := hrows
  subst hrows
  split
  · next hnone =>
      rw [hnone]
      rfl
  · simp only [Code.wp_bind, Code.wp_perform, Code.wp_pure]
    refine ⟨trivial, fun models hmodels => ⟨trivial, fun classes hclasses => ?_⟩⟩
    replace hmodels : models = q.db.models := hmodels
    replace hclasses : classes = q.db.taskClasses := hclasses
    rw [hmodels, hclasses]

end

theorem map_id_fst {ρ κ : Type} (key : ρ → κ) (rows : List ρ) :
    (rows.map fun row => (key row, row)).map Prod.fst = rows.map key := by
  rw [List.map_map]
  rfl

/-- The row with an id, in a map of rows by id. -/
theorem get_byId_iff {ρ κ : Type} [DecidableEq κ] {key : ρ → κ} {rows : List ρ}
    (hkeys : (rows.map key).Nodup) {k : κ} {row : ρ} :
    (JsMap.ofList (rows.map fun row => (key row, row))).get k = some row ↔
      row ∈ rows ∧ key row = k := by
  constructor
  · intro h
    obtain ⟨row', hrow', heq⟩ := List.mem_map.1 (JsMap.mem_of_get_ofList h)
    obtain ⟨hkey, rfl⟩ := Prod.mk.inj heq
    exact ⟨hrow', hkey⟩
  · rintro ⟨hrow, rfl⟩
    refine JsMap.get_ofList ?_ (List.mem_map.2 ⟨row, hrow, rfl⟩)
    rw [map_id_fst]
    exact hkeys

theorem mem_invalidBindings {db : AdminDb} (hdb : db.Valid) (hmodels : db.ModelKeys)
    {b : InvalidBinding} :
    b ∈ invalidBindings (.ofList (db.models.map fun m => (m.id, m)))
        (.ofList (db.taskClasses.map fun c => (c.id, c))) db.policies ↔
      ∃ p ∈ db.policies, ∃ tc ∈ db.taskClasses, ∃ model ∈ db.models, tc.id = p.taskClassId ∧
        model.id ∈ p.boundIds ∧ ∃ reason, configTimeViolation model tc.toClassContract = some reason ∧
          b = ⟨p.firmId, p.id, tc.key, model.canonicalId, reason⟩ := by
  unfold invalidBindings
  rw [List.mem_flatMap]
  constructor
  · rintro ⟨p, hp, hb⟩
    split at hb
    · cases hb
    · next tc htc =>
        obtain ⟨htc, hclass⟩ := (get_byId_iff hdb.classIds).1 htc
        obtain ⟨id, hid, hbinding⟩ := List.mem_filterMap.1 hb
        obtain ⟨model, hget, hreason⟩ := Option.bind_eq_some_iff.1 hbinding
        obtain ⟨hmodel, hkey⟩ := (get_byId_iff hmodels.ids).1 hget
        obtain ⟨reason, hviolation, heq⟩ := Option.map_eq_some_iff.1 hreason
        rw [← hkey] at hid
        exact ⟨p, hp, tc, htc, model, hmodel, hclass, mem_uniq.1 hid, reason, hviolation, heq.symm⟩
  · rintro ⟨p, hp, tc, htc, model, hmodel, hclass, hbound, reason, hreason, rfl⟩
    refine ⟨p, hp, ?_⟩
    rw [(get_byId_iff hdb.classIds).2 ⟨htc, hclass⟩]
    refine List.mem_filterMap.2 ⟨model.id, mem_uniq.2 hbound, ?_⟩
    rw [(get_byId_iff hmodels.ids).2 ⟨hmodel, rfl⟩, Option.bind_some, hreason]
    rfl

/-! ### The gates agree -/

section
variable [Platform]

open AdminSession

theorem configTimeViolation_iff_canServe {tc : TaskClassRecord} {model : ModelRecord}
    (hsunset : model.status ≠ .sunset) :
    configTimeViolation model tc.toClassContract = none ↔ CanServe tc model.toModelRow := by
  rw [configTimeViolation_eq_none_iff, canServe_iff_suits hsunset]

/-- After a save, the default, every allowed and every fallback model is bound, and every bound
model that is not sunset can serve the class. -/
def BindingsServe (db : AdminDb) (input : SavePolicyInput) : Prop :=
  ∃ tc row, db.findTaskClass input.taskClassKey = some tc ∧
    db.policyOf input.firmId input.taskClassKey = some row ∧
    (∀ c ∈ input.canonicalIds, ∃ model ∈ db.models, model.canonicalId = c ∧
      model.id ∈ row.boundIds) ∧
    ∀ model ∈ db.models, model.id ∈ row.boundIds → model.status ≠ .sunset →
      CanServe tc model.toModelRow

theorem bindings_serve_of_saved {input : SavePolicyInput} {q q' : AdminSession}
    (hkeys : q.db.ModelKeys) (haccepts : q.db.Accepts input) (h : PolicyStored input q q') :
    BindingsServe q'.db input := by
  obtain ⟨row, m, now, hrows, hm, hvalues⟩ := h.stored
  have hfind : ∃ tc, q.db.findTaskClass input.taskClassKey = some tc := by
    unfold AdminDb.Accepts AdminDb.contractOf at haccepts
    cases hfind : q.db.findTaskClass input.taskClassKey with
    | none =>
        rw [hfind] at haccepts
        cases haccepts
    | some tc => exact ⟨tc, rfl⟩
  obtain ⟨tc, hfind⟩ := hfind
  refine ⟨tc, row, ?_, ?_, ?_, ?_⟩
  · unfold AdminDb.findTaskClass
    rw [h.classes]
    exact hfind
  · rw [hrows, if_pos ⟨rfl, rfl⟩]
  · intro c hc
    obtain ⟨m', hm'⟩ := known_of_no_problems (no_problems_of_accepts hfind haccepts) hc
    obtain ⟨hmem, hcanonical⟩ := mem_of_catalogFor hm'
    refine ⟨m', h.models.symm ▸ hmem, hcanonical, ?_⟩
    rw [hvalues]
    exact bound_of_known hm hc hm'
  · intro model hmodel hbound hsunset
    rw [h.models] at hmodel
    rw [hvalues] at hbound
    obtain ⟨c, hc, m', hm', hid⟩ := known_of_bound hm hbound
    have heq : m' = model := Rows.eq_of_key hkeys.ids (mem_of_catalogFor hm').1 hmodel hid
    rw [canServe_iff_suits hsunset, ← heq]
    exact suits_of_accepts hfind haccepts hc hm'

theorem canServe_iff_of_active {tc : TaskClassRecord} {model : ModelRecord} :
    CanServe tc { model.toModelRow with status := .active } ↔
      configTimeViolation model tc.toClassContract = none := by
  rw [configTimeViolation_eq_none_iff, canServe_iff_suits (by simp)]
  constructor
  · intro h
    exact ⟨h.place, h.able⟩
  · intro h
    exact ⟨h.place, h.able⟩

/-- A list of the bindings that serving would refuse whatever the status of the model. -/
structure ListsInvalid (db : AdminDb) (bindings : List InvalidBinding) : Prop where
  bound : ∀ b ∈ bindings, ∃ p ∈ db.policies, ∃ tc ∈ db.taskClasses, ∃ model ∈ db.models,
    tc.id = p.taskClassId ∧ model.id ∈ p.boundIds ∧
      b = ⟨p.firmId, p.id, tc.key, model.canonicalId, b.reason⟩
  exact : ∀ p ∈ db.policies, ∀ tc ∈ db.taskClasses, ∀ model ∈ db.models, tc.id = p.taskClassId →
    model.id ∈ p.boundIds → ((∃ reason, ⟨p.firmId, p.id, tc.key, model.canonicalId, reason⟩ ∈ bindings)
      ↔ ¬CanServe tc { model.toModelRow with status := .active })

theorem invalidBindings_listsInvalid {db : AdminDb} (hdb : db.Valid) (hmodels : db.ModelKeys) :
    ListsInvalid db (invalidBindings (.ofList (db.models.map fun m => (m.id, m)))
      (.ofList (db.taskClasses.map fun c => (c.id, c))) db.policies) where
  bound := by
    intro b hb
    obtain ⟨p, hp, tc, htc, model, hmodel, hclass, hbound, reason, -, rfl⟩ :=
      (mem_invalidBindings hdb hmodels).1 hb
    exact ⟨p, hp, tc, htc, model, hmodel, hclass, hbound, rfl⟩
  exact := by
    intro p hp tc htc model hmodel hclass hbound
    rw [canServe_iff_of_active]
    constructor
    · rintro ⟨reason, hb⟩ hnone
      obtain ⟨p', hp', tc', htc', model', hmodel', hclass', -, reason', hreason, heq⟩ :=
        (mem_invalidBindings hdb hmodels).1 hb
      simp only [InvalidBinding.mk.injEq] at heq
      obtain ⟨-, hpid, hkey, hcanonical, -⟩ := heq
      have hmodel'' : model = model' := Rows.eq_of_key hmodels.canonicalIds hmodel hmodel' hcanonical
      have htc'' : tc = tc' := Rows.eq_of_key hdb.classKeys htc htc' hkey
      rw [← hmodel'', ← htc'', hnone] at hreason
      cases hreason
    · intro hrefused
      cases hreason : configTimeViolation model tc.toClassContract with
      | none => exact absurd hreason hrefused
      | some reason =>
          exact ⟨reason, (mem_invalidBindings hdb hmodels).2
            ⟨p, hp, tc, htc, model, hmodel, hclass, hbound, reason, hreason, rfl⟩⟩

/-- **The gates agree.**  For a model that is not sunset, the gate of saving finds nothing exactly
if serving refuses no request that needs nothing its class does not need and meets no ban.  So the
models of a saved policy can serve its class, and `findInvalidBindings` lists the bound models that
serving would refuse. -/
theorem gates_agree :
    (∀ (tc : TaskClassRecord) (model : ModelRecord), model.status ≠ .sunset →
      (configTimeViolation model tc.toClassContract = none ↔ CanServe tc model.toModelRow)) ∧
    (∀ (db : AdminDb) (input : SavePolicyInput) (id : Uuid) (u : Unit) (q : AdminSession),
      db.Valid → db.ModelKeys →
      Prog.Run env (savePolicy input u) { db := db } (.ret (.ok id, u)) q →
      BindingsServe q.db input) ∧
    (∀ (db : AdminDb) (r : Except Thrown (List InvalidBinding)) (u : Unit) (q : AdminSession),
      db.Valid → db.ModelKeys → Prog.Run env (findInvalidBindings u) { db := db } (.ret (r, u)) q →
      ∃ bindings, r = .ok bindings ∧ ListsInvalid db bindings) := by
  refine ⟨fun tc model hsunset => configTimeViolation_iff_canServe hsunset, ?_, ?_⟩
  · intro db input id u q hdb hmodels hrun
    have hwp : (savePolicy input).wp env (fun _ _ => True)
        (fun r _ q' => Saved input r { db := db } q') u { db := db } := savePolicy_spec hdb
    have hsaved := Prog.post_of_run hwp hrun
    replace hsaved : Saved input (.ok id) { db := db } q := hsaved
    exact bindings_serve_of_saved hmodels hsaved.1 hsaved.2
  · intro db r u q hdb hmodels hrun
    have hwp := findInvalidBindings_spec (u := u) (q := { db := db })
    have hlist := Prog.post_of_run hwp hrun
    exact ⟨_, hlist, invalidBindings_listsInvalid hdb hmodels⟩

end

/-! ### A sample save -/

namespace Sample

def adminModel : ModelRecord where
  id := ⟨"a1", by decide⟩
  canonicalId := "ollama/m"
  providerKind := .local
  displayName := "m"
  contextWindow := 8192
  source := .custom

def stockedDb : AdminDb := { adminDb with models := [adminModel] }

def plainSave : SavePolicyInput where
  firmId := adminFirm
  taskClassKey := "k"
  defaultModelCanonicalId := "ollama/m"

theorem stockedDb_valid : stockedDb.Valid :=
  ⟨adminDb_valid.classIds, adminDb_valid.classKeys, adminDb_valid.policyIds,
    adminDb_valid.policyKeys, adminDb_valid.policyClasses⟩

theorem stockedDb_models : [adminModel] = stockedDb.findModels plainSave.canonicalIds := by decide

theorem plainSave_run : ∃ q, Prog.Run AdminSession.env (savePolicy plainSave ())
    { db := stockedDb } (.ret (.ok adminFirm, ())) q := by
  refine ⟨_, .step (some adminClass) rfl (.step [adminModel] stockedDb_models (.step none rfl
    (.step (0 : ℕ) trivial (.step adminFirm ?_ (.step () trivial (.step () trivial (.refl _ _)))))))⟩
  intro row hrow
  cases hrow

theorem plainSave_serves : letI := Platform.ofDigests [] adminFirm
    ∃ q : AdminSession, BindingsServe q.db plainSave := by
  let := Platform.ofDigests [] adminFirm
  obtain ⟨q, hrun⟩ := plainSave_run
  exact ⟨q, gates_agree.2.1 stockedDb plainSave adminFirm () q stockedDb_valid
    ⟨by decide, by decide⟩ hrun⟩

end Sample

end VibeRouter
