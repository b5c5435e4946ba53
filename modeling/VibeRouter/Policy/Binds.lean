import VibeRouter.Policy.Gates
import VibeRouter.Policy.Pack

/-! # What the default pack binds

`pickDefaultModel` judges the models by the entry of the pack.  The class that will be enforced is
the stored one, which an application may have registered with other requirements and an operator
may have tightened: the pack binds what may serve exactly if, for every entry whose class is
stored without a policy, the model picked for the entry is one for the stored class
(`pack_binds_iff`).  That is so for every catalog exactly if the stored classes ask what the pack
asks. -/

namespace VibeRouter

open Effects Effects.Code Admin

/-! ### The models that may be bound -/

/-- The model may be bound for a class that asks `tc`. -/
structure Eligible (models : List ModelRecord) (kinds : List ProviderKind) (tc : ClassContract)
    (m : ModelRecord) : Prop where
  mem : m ∈ models
  serves : configTimeViolation m tc = none
  active : m.status = .active
  hosted : m.thirdPartyHosted = false
  kind : m.providerKind ∈ kinds

/-- An eligible model, of the local tier if there is one. -/
structure BestFor (models : List ModelRecord) (kinds : List ProviderKind) (tc : ClassContract)
    (m : ModelRecord) : Prop where
  eligible : Eligible models kinds tc m
  localFirst : isLocalKind m.providerKind = true ∨
    ∀ m', Eligible models kinds tc m' → isLocalKind m'.providerKind = false

section
variable {models : List ModelRecord} {kinds : List ProviderKind} {tc : ClassContract}
  {m : ModelRecord} {array : ArraySort}

theorem capableModel_iff : capableModel tc kinds m = true ↔ m.status = .active ∧
    m.thirdPartyHosted = false ∧ m.providerKind ∈ kinds ∧
    ∀ k ∈ classCapabilities, tc.wants k = true → effectiveCapabilities m.toModelRow k = true := by
  unfold capableModel
  by_cases hactive : m.status = .active <;> by_cases hkind : m.providerKind ∈ kinds <;>
    by_cases hhosted : m.thirdPartyHosted = true <;> simp [hactive, hkind, hhosted]
  by_cases htools : tc.wants .tools = true <;> by_cases hjson : tc.wants .json_schema = true <;>
    by_cases hvision : tc.wants .vision = true <;> simp [htools, hjson, hvision]

theorem mem_modelPool : m ∈ modelPool models tc kinds ↔ Eligible models kinds tc m := by
  have hsplit : Eligible models kinds tc m ↔ m ∈ models ∧ capableModel tc kinds m = true ∧
      (tc.sensitivity = .local_only → isLocalKind m.providerKind = true) := by
    rw [capableModel_iff]
    constructor
    · intro h
      have hsuits := configTimeViolation_eq_none_iff.1 h.serves
      exact ⟨h.mem, ⟨h.active, h.hosted, h.kind, hsuits.able⟩, hsuits.place⟩
    · rintro ⟨hmem, ⟨hactive, hhosted, hkind, hable⟩, hplace⟩
      exact ⟨hmem, configTimeViolation_eq_none_iff.2 ⟨hplace, hable⟩, hactive, hhosted, hkind⟩
  rw [hsplit]
  unfold modelPool
  dsimp only
  split
  · next hlocal =>
      simp only [List.mem_filter, hlocal, forall_const]
      tauto
  · next hcloud => simp [hcloud]

/-- The first of some rows in any order. -/
theorem head_sort_none {compare : ModelRecord → ModelRecord → ℤ} {rows : List ModelRecord} :
    (array.sort compare rows).head? = none ↔ rows = [] := by
  rw [List.head?_eq_none_iff]
  exact ⟨fun h => List.nil_perm.1 (h ▸ array.perm compare rows),
    fun h => List.perm_nil.1 (h ▸ array.perm compare rows)⟩

theorem head_sort_mem {compare : ModelRecord → ModelRecord → ℤ} {rows : List ModelRecord}
    (h : (array.sort compare rows).head? = some m) : m ∈ rows :=
  (array.perm compare rows).mem_iff.1 (List.mem_of_mem_head? h)

theorem pickDefaultModel_none : pickDefaultModel array models tc kinds = none ↔
    ∀ m, ¬Eligible models kinds tc m := by
  unfold pickDefaultModel
  dsimp only
  rw [Option.or_eq_none_iff, head_sort_none, head_sort_none]
  constructor
  · rintro ⟨-, hpool⟩ m hm
    rw [← mem_modelPool, hpool] at hm
    cases hm
  · intro hnone
    have hpool : modelPool models tc kinds = [] := by
      rw [List.eq_nil_iff_forall_not_mem]
      exact fun m hm => hnone m (mem_modelPool.1 hm)
    rw [hpool]
    exact ⟨rfl, rfl⟩

/-- The picked model is the best for what it was picked for. -/
theorem pickDefaultModel_some (h : pickDefaultModel array models tc kinds = some m) :
    BestFor models kinds tc m := by
  unfold pickDefaultModel at h
  dsimp only at h
  rw [Option.or_eq_some_iff] at h
  rcases h with h | ⟨hlocals, h⟩
  · obtain ⟨hmem, hlocal⟩ := List.mem_filter.1 (head_sort_mem h)
    exact ⟨mem_modelPool.1 hmem, Or.inl hlocal⟩
  · refine ⟨mem_modelPool.1 (head_sort_mem h), Or.inr fun m' hm' => ?_⟩
    rw [head_sort_none, List.filter_eq_nil_iff] at hlocals
    exact Bool.eq_false_iff.2 (hlocals m' (mem_modelPool.2 hm'))

end

/-! ### One entry, and all of them -/

section
variable (array : ArraySort) (kinds : List ProviderKind) (firmId : Uuid)

/-- The class of an entry and its policy, after the entry was applied. -/
def EntrySettled (db db' : AdminDb) (entry : PackEntry) : Prop :=
  ∃ tc, db'.findTaskClass entry.key = some tc ∧
    (db.findTaskClass entry.key = some tc ∨
      db.findTaskClass entry.key = none ∧ tc.toClassContract = entry.toClassContract) ∧
    (∀ row, db.policyOf firmId entry.key = some row →
      db'.policyOf firmId entry.key = some row) ∧
    (db.policyOf firmId entry.key = none →
      (db'.policyOf firmId entry.key).map (fun row => row.defaultModelId) =
        (pickDefaultModel array db.models entry.toClassContract kinds).map fun m => m.id)

/-- The entries lead from `db` to `db'`. -/
structure PackApplied (entries : List PackEntry) (db db' : AdminDb) : Prop where
  valid : db'.Valid
  models : db'.models = db.models
  classes : ∀ row ∈ db.taskClasses, row ∈ db'.taskClasses
  policies : ∀ row ∈ db.policies, row ∈ db'.policies
  others : ∀ key, (∀ entry ∈ entries, entry.key ≠ key) →
    db'.findTaskClass key = db.findTaskClass key ∧ db'.policyOf firmId key = db.policyOf firmId key
  settled : ∀ entry ∈ entries, EntrySettled array kinds firmId db db' entry
  new : ∀ row ∈ db'.policies, row ∈ db.policies ∨ ∃ entry ∈ entries,
    db.policyOf firmId entry.key = none ∧ db'.policyOf firmId entry.key = some row
  idle : (∀ entry ∈ entries, db.findTaskClass entry.key ≠ none ∧
    (db.policyOf firmId entry.key = none →
      pickDefaultModel array db.models entry.toClassContract kinds = none)) → db' = db

/-- The class of an entry is there. -/
structure ClassReady (entry : PackEntry) (db db₁ : AdminDb) (tc : TaskClassRecord) : Prop where
  valid : db₁.Valid
  models : db₁.models = db.models
  classes : ∀ row ∈ db.taskClasses, row ∈ db₁.taskClasses
  policies : db₁.policies = db.policies
  found : db₁.findTaskClass entry.key = some tc
  origin : db.findTaskClass entry.key = some tc ∧ db₁ = db ∨
    db.findTaskClass entry.key = none ∧ tc.toClassContract = entry.toClassContract
  others : ∀ key, key ≠ entry.key → db₁.findTaskClass key = db.findTaskClass key
  policyOf : ∀ firmId key, db₁.policyOf firmId key = db.policyOf firmId key

end

section
variable {array : ArraySort} {kinds : List ProviderKind} {firmId : Uuid} {entry : PackEntry}
  {entries : List PackEntry} {db db₁ db' : AdminDb} {tc : TaskClassRecord}

theorem PackApplied.nil (h : db.Valid) : PackApplied array kinds firmId [] db db where
  valid := h
  models := rfl
  classes := fun _ hrow => hrow
  policies := fun _ hrow => hrow
  others := fun _ _ => ⟨rfl, rfl⟩
  settled := fun entry hentry => by cases hentry
  new := fun _ hrow => Or.inl hrow
  idle := fun _ => rfl

theorem PackApplied.cons (hkey : ∀ other ∈ entries, other.key ≠ entry.key)
    (h : PackApplied array kinds firmId [entry] db db₁)
    (hrest : PackApplied array kinds firmId entries db₁ db') :
    PackApplied array kinds firmId (entry :: entries) db db' where
  valid := hrest.valid
  models := hrest.models.trans h.models
  classes := fun row hrow => hrest.classes row (h.classes row hrow)
  policies := fun row hrow => hrest.policies row (h.policies row hrow)
  others := by
    intro key hother
    obtain ⟨hclass, hpolicy⟩ := hrest.others key fun e he => hother e (List.mem_cons_of_mem _ he)
    obtain ⟨hclass₁, hpolicy₁⟩ := h.others key fun e he => by
      rw [List.mem_singleton.1 he]
      exact hother entry List.mem_cons_self
    exact ⟨hclass.trans hclass₁, hpolicy.trans hpolicy₁⟩
  settled := by
    intro e he
    rcases List.mem_cons.1 he with rfl | he
    · obtain ⟨tc, hfound, horigin, hkept, hnew⟩ := h.settled _ (List.mem_singleton_self _)
      obtain ⟨hclass, hpolicy⟩ := hrest.others _ hkey
      exact ⟨tc, hclass.trans hfound, horigin, fun row hrow => hpolicy.trans (hkept row hrow),
        fun hnone => by rw [hpolicy]; exact hnew hnone⟩
    · obtain ⟨tc, hfound, horigin, hkept, hnew⟩ := hrest.settled e he
      obtain ⟨hclass, hpolicy⟩ := h.others e.key fun e' he' => by
        rw [List.mem_singleton.1 he']
        exact (hkey e he).symm
      rw [hclass] at horigin
      rw [hpolicy, h.models] at hnew
      rw [hpolicy] at hkept
      exact ⟨tc, hfound, horigin, hkept, hnew⟩
  new := by
    intro row hrow
    rcases hrest.new row hrow with hrow | ⟨e, he, hnone, hsome⟩
    · rcases h.new row hrow with hrow | ⟨e, he, hnone, hsome⟩
      · exact Or.inl hrow
      · obtain rfl := List.mem_singleton.1 he
        exact Or.inr ⟨e, List.mem_cons_self, hnone, (hrest.others _ hkey).2.trans hsome⟩
    · obtain ⟨-, hpolicy⟩ := h.others e.key fun e' he' => by
        rw [List.mem_singleton.1 he']
        exact (hkey e he).symm
      exact Or.inr ⟨e, List.mem_cons_of_mem _ he, hpolicy.symm.trans hnone, hsome⟩
  idle := by
    intro hidle
    have hfirst := h.idle fun e he => by
      rw [List.mem_singleton.1 he]
      exact hidle entry List.mem_cons_self
    subst hfirst
    exact hrest.idle fun e he => hidle e (List.mem_cons_of_mem _ he)

/-! ### The two steps of an entry -/

theorem ClassReady.stored (h : db.Valid) (hfind : db.findTaskClass entry.key = some tc) :
    ClassReady entry db db tc where
  valid := h
  models := rfl
  classes := fun _ hrow => hrow
  policies := rfl
  found := hfind
  origin := Or.inl ⟨hfind, rfl⟩
  others := fun _ _ => rfl
  policyOf := fun _ _ => rfl

/-- The row of a class that the pack creates. -/
def packRow (entry : PackEntry) (id : Uuid) : TaskClassRecord :=
  { toClassContract := entry.toClassContract, id, key := entry.key, app := entry.app,
    description := entry.description, defaultMaxTokens := entry.defaultMaxTokens,
    registeredByAppVersion := some "default-pack" }

theorem ClassReady.created {id : Uuid} (h : db.Valid) (hnone : db.findTaskClass entry.key = none)
    (hid : ∀ row ∈ db.taskClasses, row.id ≠ id) :
    ClassReady entry db (db.insertTaskClass (packRow entry id)) (packRow entry id) where
  valid := h.insertTaskClass hid hnone
  models := rfl
  classes := fun _ hrow => List.mem_append_left _ hrow
  policies := rfl
  found := by
    rw [AdminDb.findTaskClass_insertTaskClass, hnone]
    exact if_pos rfl
  origin := Or.inr ⟨hnone, rfl⟩
  others := by
    intro key hkey
    have hne : (packRow entry id).key ≠ key := hkey.symm
    rw [AdminDb.findTaskClass_insertTaskClass, if_neg hne, Option.or_none]
  policyOf := fun firmId key => h.policyOf_insertTaskClass hid firmId key

theorem ClassReady.policyOf_eq (h : ClassReady entry db db₁ tc) :
    db₁.findPolicy firmId tc.id = db.policyOf firmId entry.key := by
  rw [← h.policyOf]
  unfold AdminDb.policyOf
  rw [h.found]
  rfl

/-- An entry that binds nothing. -/
theorem PackApplied.unbound (h : ClassReady entry db db₁ tc)
    (hkept : db.policyOf firmId entry.key = none →
      pickDefaultModel array db.models entry.toClassContract kinds = none) :
    PackApplied array kinds firmId [entry] db db₁ where
  valid := h.valid
  models := h.models
  classes := h.classes
  policies := by
    rw [h.policies]
    exact fun _ hrow => hrow
  others := by
    intro key hkey
    exact ⟨h.others key (hkey entry (List.mem_singleton_self _)).symm, h.policyOf firmId key⟩
  settled := by
    intro e he
    obtain rfl := List.mem_singleton.1 he
    refine ⟨tc, h.found, h.origin.imp And.left id, fun row hrow => ?_, fun hnone => ?_⟩
    · rw [h.policyOf]
      exact hrow
    · rw [h.policyOf, hnone, hkept hnone]
      rfl
  new := by
    rw [h.policies]
    exact fun _ hrow => Or.inl hrow
  idle := by
    intro hidle
    rcases h.origin with ⟨-, hsame⟩ | ⟨hnone, -⟩
    · exact hsame
    · exact absurd hnone (hidle entry (List.mem_singleton_self _)).1

/-- The row of a policy that the pack creates. -/
def packPolicyRow (m : ModelRecord) (firmId taskClassId id : Uuid) : PolicyRecord :=
  { toPolicyValues := packPolicy m, id, firmId, taskClassId }

/-- An entry that binds a model. -/
theorem PackApplied.bound {m : ModelRecord} {newId : Uuid} (h : ClassReady entry db db₁ tc)
    (hnone : db.policyOf firmId entry.key = none)
    (hpick : pickDefaultModel array db.models entry.toClassContract kinds = some m)
    (hid : ∀ row ∈ db₁.policies, row.id ≠ newId) :
    PackApplied array kinds firmId [entry] db
      (db₁.insertPolicy (packPolicyRow m firmId tc.id newId)) := by
  have hfind : db₁.findPolicy firmId tc.id = none := h.policyOf_eq.trans hnone
  have hrows : ∀ firmId' key,
      (db₁.insertPolicy (packPolicyRow m firmId tc.id newId)).policyOf firmId' key =
        if firmId' = firmId ∧ key = entry.key then some (packPolicyRow m firmId tc.id newId)
        else db₁.policyOf firmId' key :=
    fun firmId' key => h.valid.policyOf_insertPolicy h.found rfl hfind firmId' key
  have hself : ∀ row, row ∈ (db₁.insertPolicy (packPolicyRow m firmId tc.id newId)).policies →
      row ∈ db.policies ∨ row = packPolicyRow m firmId tc.id newId := by
    intro row hrow
    rw [← h.policies]
    exact (List.mem_append.1 hrow).imp_right List.mem_singleton.1
  refine ⟨?_, h.models, h.classes, ?_, ?_, ?_, ?_, ?_⟩
  · exact h.valid.insertPolicy hid hfind ⟨tc, (AdminDb.findTaskClass_mem h.found).1, rfl⟩
  · intro row hrow
    rw [← h.policies] at hrow
    exact List.mem_append_left _ hrow
  · intro key hkey
    have hne : key ≠ entry.key := (hkey entry (List.mem_singleton_self _)).symm
    refine ⟨h.others key hne, ?_⟩
    rw [hrows, if_neg fun hboth => hne hboth.2, h.policyOf]
  · intro e he
    obtain rfl := List.mem_singleton.1 he
    refine ⟨tc, h.found, h.origin.imp And.left id, fun row hrow => ?_, fun _ => ?_⟩
    · rw [hnone] at hrow
      cases hrow
    · rw [hrows, if_pos ⟨rfl, rfl⟩, hpick]
      rfl
  · intro row hrow
    rcases hself row hrow with hrow | rfl
    · exact Or.inl hrow
    · refine Or.inr ⟨entry, List.mem_singleton_self _, hnone, ?_⟩
      rw [hrows, if_pos ⟨rfl, rfl⟩]
  · intro hidle
    have hnot := (hidle entry (List.mem_singleton_self _)).2 hnone
    rw [hpick] at hnot
    cases hnot

end

/-! ### The loop -/

open AdminSession

section
variable (array : ArraySort) {kinds : List ProviderKind} (firmId : Uuid) {u : Unit}
  {q : AdminSession}

theorem packClass_spec (entry : PackEntry) (hq : q.db.Valid) :
    (packClass entry).wp env (fun _ _ => True) (fun r _ q' => ∃ tc created,
      r = .ok (tc.id, created) ∧ ClassReady entry q.db q'.db tc) u q := by
  simp only [packClass, op, wp_bind, wp_perform]
  refine ⟨trivial, fun r hr => ?_⟩
  replace hr : r = q.db.findTaskClass entry.key := hr
  subst hr
  cases hfind : q.db.findTaskClass entry.key with
  | some tc =>
      simp only [wp_pure]
      exact ⟨tc, false, rfl, .stored hq hfind⟩
  | none =>
      simp only [wp_bind, wp_perform, wp_pure]
      exact ⟨trivial, fun id hid => ⟨packRow entry id, true, rfl, .created hq hfind hid⟩⟩

theorem applyPackEntry_spec (entry : PackEntry) (result : ApplyPackResult) (hq : q.db.Valid) :
    (applyPackEntry array firmId q.db.models kinds result entry).wp env (fun _ _ => True)
      (fun r _ q' => r.isOk = true ∧ PackApplied array kinds firmId [entry] q.db q'.db) u q := by
  simp only [applyPackEntry, wp_bind]
  refine wp_mono (packClass_spec entry hq) ?_
  rintro r u' q₁ ⟨tc, created, rfl, hready⟩
  simp only [op, wp_perform]
  refine ⟨trivial, fun r hr => ?_⟩
  replace hr : r = q₁.db.findPolicy firmId tc.id := hr
  rw [hready.policyOf_eq] at hr
  subst hr
  cases hpolicy : q.db.policyOf firmId entry.key with
  | some row =>
      refine ⟨rfl, .unbound hready fun hnone => ?_⟩
      rw [hpolicy] at hnone
      cases hnone
  | none =>
      cases hpick : pickDefaultModel array q.db.models entry.toClassContract kinds with
      | none => exact ⟨rfl, .unbound hready fun _ => hpick⟩
      | some m =>
          simp only [wp_bind, wp_perform, wp_pure]
          exact ⟨trivial, fun id hid => ⟨rfl, .bound hready hpolicy hpick hid⟩⟩

theorem applyPackEntries_spec (entries : List PackEntry) (result : ApplyPackResult)
    (hkeys : (entries.map fun entry => entry.key).Nodup) (hq : q.db.Valid) :
    (applyPackEntries array firmId q.db.models kinds result entries).wp env (fun _ _ => True)
      (fun _ _ q' => PackApplied array kinds firmId entries q.db q'.db) u q := by
  induction entries generalizing result u q with
  | nil => exact .nil hq
  | cons entry entries ih =>
      rw [List.map_cons, List.nodup_cons] at hkeys
      have hother : ∀ other ∈ entries, other.key ≠ entry.key := by
        intro other hmem hsame
        exact hkeys.1 (List.mem_map.2 ⟨other, hmem, hsame⟩)
      simp only [applyPackEntries, wp_bind]
      refine wp_mono (applyPackEntry_spec array firmId entry result hq) ?_
      rintro r u' q₁ ⟨hok, hfirst⟩
      cases r with
      | error e => cases hok
      | ok result' =>
          have hrest := ih (q := q₁) (u := u') result' hkeys.2 hfirst.valid
          rw [hfirst.models] at hrest
          refine wp_mono hrest ?_
          intro r u'' q' happlied
          exact .cons hother hfirst happlied

theorem default_pack_keys : (DEFAULT_PACK.map fun entry => entry.key).Nodup := by
  decide

theorem applyDefaultPack_spec (providers : List ProviderRow) (hq : q.db.Valid) :
    (applyDefaultPack array providers firmId).wp env (fun _ _ => True)
      (fun _ _ q' => PackApplied array (configuredKinds providers firmId) firmId DEFAULT_PACK
        q.db q'.db) u q := by
  simp only [applyDefaultPack, op, wp_bind, wp_perform]
  refine ⟨trivial, fun r hr => ?_⟩
  replace hr : r = q.db.models := hr
  subst hr
  exact applyPackEntries_spec array firmId DEFAULT_PACK {} default_pack_keys hq

end

/-! ### The pack as a whole -/

/-- From `db` to `db'` a firm has got policies that bind what may serve, and nothing else has
changed. -/
structure BindsOnly (kinds : List ProviderKind) (firmId : Uuid) (db db' : AdminDb) : Prop where
  created : ∀ row ∈ db'.policies, row ∉ db.policies → row.firmId = firmId ∧
    ∃ tc ∈ db'.taskClasses, tc.id = row.taskClassId ∧
      ∃ m, m.id = row.defaultModelId ∧ BestFor db.models kinds tc.toClassContract m
  classes : ∀ row ∈ db.taskClasses, row ∈ db'.taskClasses
  policies : ∀ row ∈ db.policies, row ∈ db'.policies
  left : ∀ entry ∈ DEFAULT_PACK, ∃ tc, db'.findTaskClass entry.key = some tc ∧
    (db'.policyOf firmId entry.key = none ↔ db.policyOf firmId entry.key = none ∧
      ∀ m, ¬Eligible db.models kinds tc.toClassContract m)

/-- The two classes ask the same of a model. -/
structure AsksSame (tc tc' : ClassContract) : Prop where
  place : tc.sensitivity = .local_only ↔ tc'.sensitivity = .local_only
  wants : ∀ k ∈ classCapabilities, tc.wants k = tc'.wants k

namespace AdminDb

/-- The class of the entry is stored, and the firm has no policy for it. -/
def Unserved (db : AdminDb) (firmId : Uuid) (entry : PackEntry) (tc : TaskClassRecord) : Prop :=
  db.findTaskClass entry.key = some tc ∧ db.findPolicy firmId tc.id = none

/-- What is picked for an entry whose class is stored without a policy is right for the stored
class. -/
def PackFits (db : AdminDb) (array : ArraySort) (kinds : List ProviderKind) (firmId : Uuid) :
    Prop :=
  ∀ entry ∈ DEFAULT_PACK, ∀ tc, db.Unserved firmId entry tc →
    (∀ m, pickDefaultModel array db.models entry.toClassContract kinds = some m →
      BestFor db.models kinds tc.toClassContract m) ∧
    (pickDefaultModel array db.models entry.toClassContract kinds = none →
      ∀ m, ¬Eligible db.models kinds tc.toClassContract m)

/-- The stored classes without a policy ask what the pack asks. -/
def PackAgrees (db : AdminDb) (firmId : Uuid) : Prop :=
  ∀ entry ∈ DEFAULT_PACK, ∀ tc, db.Unserved firmId entry tc →
    AsksSame tc.toClassContract entry.toClassContract

theorem Unserved.policyOf {db : AdminDb} {firmId : Uuid} {entry : PackEntry} {tc : TaskClassRecord}
    (h : db.Unserved firmId entry tc) : db.policyOf firmId entry.key = none := by
  unfold AdminDb.policyOf
  rw [h.1]
  exact h.2

end AdminDb

section
variable {array : ArraySort} {kinds : List ProviderKind} {firmId : Uuid} {db db' : AdminDb}

/-- The policy of a stored class, read by the id of the class. -/
theorem policyOf_of_find {key : String} {tc : TaskClassRecord}
    (h : db.findTaskClass key = some tc) : db.policyOf firmId key = db.findPolicy firmId tc.id := by
  unfold AdminDb.policyOf
  rw [h]
  rfl

theorem PackApplied.binds (h : PackApplied array kinds firmId DEFAULT_PACK db db')
    (hfits : db.PackFits array kinds firmId) : BindsOnly kinds firmId db db' := by
  have hright : ∀ entry ∈ DEFAULT_PACK, ∀ tc, db'.findTaskClass entry.key = some tc →
      (db.findTaskClass entry.key = some tc ∨
        db.findTaskClass entry.key = none ∧ tc.toClassContract = entry.toClassContract) →
      db.policyOf firmId entry.key = none →
      (∀ m, pickDefaultModel array db.models entry.toClassContract kinds = some m →
        BestFor db.models kinds tc.toClassContract m) ∧
      (pickDefaultModel array db.models entry.toClassContract kinds = none →
        ∀ m, ¬Eligible db.models kinds tc.toClassContract m) := by
    intro entry hentry tc hfound horigin hnone
    rcases horigin with hstored | ⟨-, hsame⟩
    · exact hfits entry hentry tc ⟨hstored, (policyOf_of_find hstored).symm.trans hnone⟩
    · rw [hsame]
      exact ⟨fun m hm => pickDefaultModel_some hm, pickDefaultModel_none.1⟩
  refine ⟨fun row hrow hnew => ?_, h.classes, h.policies, fun entry hentry => ?_⟩
  · rcases h.new row hrow with hold | ⟨entry, hentry, hnone, hsome⟩
    · exact absurd hold hnew
    · obtain ⟨tc, hfound, horigin, -, hbound⟩ := h.settled entry hentry
      have hpick := hbound hnone
      rw [hsome, Option.map_some] at hpick
      obtain ⟨m, hm, hid⟩ := Option.map_eq_some_iff.1 hpick.symm
      rw [policyOf_of_find hfound] at hsome
      obtain ⟨-, hfirm, hclass⟩ := AdminDb.findPolicy_mem hsome
      exact ⟨hfirm, tc, (AdminDb.findTaskClass_mem hfound).1, hclass.symm, m, hid,
        (hright entry hentry tc hfound horigin hnone).1 m hm⟩
  · obtain ⟨tc, hfound, horigin, hkept, hbound⟩ := h.settled entry hentry
    refine ⟨tc, hfound, ?_⟩
    cases hbefore : db.policyOf firmId entry.key with
    | some row =>
        rw [hkept row hbefore]
        exact iff_of_false (Option.some_ne_none row) fun hboth => Option.some_ne_none row hboth.1
    | none =>
        have hpick := hbound hbefore
        obtain ⟨hsome, hnone⟩ := hright entry hentry tc hfound horigin hbefore
        cases hchosen : pickDefaultModel array db.models entry.toClassContract kinds with
        | none =>
            rw [hchosen, Option.map_none, Option.map_eq_none_iff] at hpick
            exact iff_of_true hpick ⟨rfl, hnone hchosen⟩
        | some m =>
            rw [hchosen, Option.map_some] at hpick
            refine iff_of_false (fun hnot => ?_) fun hboth => hboth.2 m (hsome m hchosen).eligible
            rw [hnot] at hpick
            cases hpick

theorem PackApplied.fits (h : PackApplied array kinds firmId DEFAULT_PACK db db')
    (hmodels : (db.models.map fun m => m.id).Nodup) (hbinds : BindsOnly kinds firmId db db') :
    db.PackFits array kinds firmId := by
  intro entry hentry tc hunserved
  have hbefore := hunserved.policyOf
  obtain ⟨tc', hfound, horigin, -, hbound⟩ := h.settled entry hentry
  obtain rfl : tc' = tc := by
    rcases horigin with hstored | ⟨hnone, -⟩
    · exact Option.some.inj (hstored.symm.trans hunserved.1)
    · rw [hunserved.1] at hnone
      cases hnone
  have hpick := hbound hbefore
  constructor
  · intro m hm
    rw [hm, Option.map_some] at hpick
    obtain ⟨row, hrow, hid⟩ := Option.map_eq_some_iff.1 hpick
    rw [policyOf_of_find hfound] at hrow
    obtain ⟨hmem, hfirm, hclass⟩ := AdminDb.findPolicy_mem hrow
    have hnew : row ∉ db.policies := by
      intro hold
      have hnone := hunserved.2
      rw [AdminDb.findPolicy_eq, Rows.find_eq_none_iff] at hnone
      exact hnone row hold (by rw [hfirm, hclass])
    obtain ⟨-, tc₂, htc₂, hid₂, m₂, hm₂, hbest⟩ := hbinds.created row hmem hnew
    obtain rfl : tc₂ = tc' := h.valid.key_eq htc₂ (AdminDb.findTaskClass_mem hfound).1
      (hid₂.trans hclass)
    obtain rfl : m₂ = m := Rows.eq_of_key hmodels hbest.eligible.mem
      (pickDefaultModel_some hm).eligible.mem (hm₂.trans hid)
    exact hbest
  · intro hnone
    rw [hnone, Option.map_none, Option.map_eq_none_iff] at hpick
    obtain ⟨tc₂, hfound₂, hiff⟩ := hbinds.left entry hentry
    obtain rfl : tc₂ = tc' := Option.some.inj (hfound₂.symm.trans hfound)
    exact (hiff.1 hpick).2

/-- The second run finds every class, and a policy wherever a model can be picked. -/
theorem PackApplied.twice {db'' : AdminDb} (h : PackApplied array kinds firmId DEFAULT_PACK db db')
    (h' : PackApplied array kinds firmId DEFAULT_PACK db' db'') : db'' = db' := by
  refine h'.idle fun entry hentry => ?_
  obtain ⟨tc, hfound, -, hkept, hbound⟩ := h.settled entry hentry
  refine ⟨fun hnone => ?_, fun hnone => ?_⟩
  · rw [hfound] at hnone
    cases hnone
  · cases hbefore : db.policyOf firmId entry.key with
    | some row =>
        rw [hkept row hbefore] at hnone
        cases hnone
    | none =>
        have hpick := hbound hbefore
        rw [hnone, Option.map_none] at hpick
        rw [h.models]
        exact Option.map_eq_none_iff.1 hpick.symm

/-! ### Whatever the catalog -/

theorem AsksSame.eligible_iff {tc tc' : ClassContract} (h : AsksSame tc tc')
    {models : List ModelRecord} {m : ModelRecord} :
    Eligible models kinds tc m ↔ Eligible models kinds tc' m := by
  have hserves : configTimeViolation m tc = none ↔ configTimeViolation m tc' = none := by
    rw [configTimeViolation_eq_none_iff, configTimeViolation_eq_none_iff]
    constructor
    · intro hs
      exact ⟨fun hlocal => hs.place (h.place.2 hlocal), fun k hk hw => hs.able k hk (by
        rw [h.wants k hk]
        exact hw)⟩
    · intro hs
      exact ⟨fun hlocal => hs.place (h.place.1 hlocal), fun k hk hw => hs.able k hk (by
        rw [← h.wants k hk]
        exact hw)⟩
  exact ⟨fun he => ⟨he.mem, hserves.1 he.serves, he.active, he.hosted, he.kind⟩,
    fun he => ⟨he.mem, hserves.2 he.serves, he.active, he.hosted, he.kind⟩⟩

theorem fits_of_agrees (h : db.PackAgrees firmId) : db.PackFits array kinds firmId := by
  intro entry hentry tc hunserved
  have hsame := h entry hentry tc hunserved
  refine ⟨fun m hm => ?_, fun hnone m hm => ?_⟩
  · obtain ⟨heligible, hlocal⟩ := pickDefaultModel_some hm
    exact ⟨hsame.eligible_iff.2 heligible,
      hlocal.imp_right fun hcloud m' hm' => hcloud m' (hsame.eligible_iff.1 hm')⟩
  · exact pickDefaultModel_none.1 hnone m (hsame.eligible_iff.1 hm)

/-- A model with all capabilities but one. -/
def probeModel (id : Uuid) (kind : ProviderKind) (lacks : Option CapabilityKey) : ModelRecord where
  id := id
  canonicalId := "probe"
  providerKind := kind
  capabilityOverrides :=
    { tools := some (lacks ≠ some .tools), json_schema := some (lacks ≠ some .json_schema),
      vision := some (lacks ≠ some .vision) }
  displayName := "probe"
  contextWindow := 0
  source := .custom

theorem probeModel_able (id : Uuid) (kind : ProviderKind) (lacks : Option CapabilityKey)
    {k : CapabilityKey} (hk : k ∈ classCapabilities) :
    effectiveCapabilities (probeModel id kind lacks).toModelRow k = decide (lacks ≠ some k) := by
  cases k with
  | tools => rfl
  | json_schema => rfl
  | vision => rfl
  | caching => exact absurd hk (by decide)
  | reasoning => exact absurd hk (by decide)

/-- A provider of that kind. -/
def probeProvider (firmId : Uuid) (kind : ProviderKind) : ProviderRow where
  id := firmId
  firmId := firmId
  kind := kind
  label := "probe"
  baseUrl := "https://probe.example"
  authType := .none

theorem configuredKinds_probe (firmId : Uuid) (kind : ProviderKind) :
    configuredKinds [probeProvider firmId kind] firmId = [kind] := by
  simp [configuredKinds, probeProvider]

/-- With one model in the catalog, what fits the entry must fit the stored class. -/
theorem fits_probe {entry : PackEntry} (hentry : entry ∈ DEFAULT_PACK) {tc : TaskClassRecord}
    (hunserved : db.Unserved firmId entry tc) {kind : ProviderKind}
    {lacks : Option CapabilityKey} (h : AdminDb.PackFits
      { db with models := [probeModel firmId kind lacks] } array [kind] firmId) :
    Suits (probeModel firmId kind lacks).toModelRow tc.toClassContract ↔
      Suits (probeModel firmId kind lacks).toModelRow entry.toClassContract := by
  have heligible : ∀ tc : ClassContract,
      Eligible [probeModel firmId kind lacks] [kind] tc (probeModel firmId kind lacks) ↔
        Suits (probeModel firmId kind lacks).toModelRow tc := by
    intro tc
    rw [← configTimeViolation_eq_none_iff]
    exact ⟨fun h => h.serves, fun h => ⟨List.mem_singleton_self _, h, rfl, rfl,
      List.mem_singleton_self _⟩⟩
  obtain ⟨hsome, hnone⟩ := h entry hentry tc hunserved
  rw [← heligible, ← heligible]
  cases hpick : pickDefaultModel array [probeModel firmId kind lacks] entry.toClassContract
      [kind] with
  | none =>
      exact iff_of_false (hnone hpick _) (pickDefaultModel_none.1 hpick _)
  | some m =>
      have hentryBest := (pickDefaultModel_some hpick).eligible
      obtain rfl := List.mem_singleton.1 hentryBest.mem
      exact iff_of_true (hsome _ hpick).eligible hentryBest

theorem agrees_of_fits (h : ∀ models providers, (models.map fun m : ModelRecord => m.id).Nodup →
    AdminDb.PackFits { db with models := models } array (configuredKinds providers firmId) firmId) :
    db.PackAgrees firmId := by
  intro entry hentry tc hunserved
  have hprobe : ∀ (kind : ProviderKind) (lacks : Option CapabilityKey),
      Suits (probeModel firmId kind lacks).toModelRow tc.toClassContract ↔
        Suits (probeModel firmId kind lacks).toModelRow entry.toClassContract := by
    intro kind lacks
    have hfits := h [probeModel firmId kind lacks] [probeProvider firmId kind]
      (List.nodup_singleton _)
    rw [configuredKinds_probe] at hfits
    exact fits_probe hentry hunserved hfits
  have hplace : ∀ tc : ClassContract,
      Suits (probeModel firmId .anthropic none).toModelRow tc ↔ tc.sensitivity ≠ .local_only := by
    intro tc
    constructor
    · intro hs hlocal
      cases hs.place hlocal
    · intro hcloud
      refine ⟨fun hlocal => absurd hlocal hcloud, fun k hk _ => ?_⟩
      rw [probeModel_able _ _ _ hk]
      rfl
  have hwants : ∀ tc : ClassContract, ∀ k ∈ classCapabilities,
      (Suits (probeModel firmId .local (some k)).toModelRow tc ↔ tc.wants k = false) := by
    intro tc k hk
    constructor
    · intro hs
      rw [Bool.eq_false_iff]
      intro hw
      have hable := hs.able k hk hw
      rw [probeModel_able _ _ _ hk] at hable
      simp at hable
    · intro hw
      refine ⟨fun _ => rfl, fun k' hk' hw' => ?_⟩
      rw [probeModel_able _ _ _ hk', decide_eq_true_eq]
      rintro ⟨⟩
      rw [hw] at hw'
      cases hw'
  refine ⟨?_, fun k hk => ?_⟩
  · have hiff := hprobe .anthropic none
    rw [hplace, hplace] at hiff
    exact not_iff_not.1 hiff
  · have hiff := hprobe .local (some k)
    rw [hwants _ k hk, hwants _ k hk] at hiff
    cases htc : tc.wants k <;> cases hentry : entry.wants k <;> simp_all

end

/-- **What the default pack binds.**  The model picked for each entry whose class is stored without a
policy is right for that class, for all catalogs and providers, exactly if those classes ask what
the pack asks.  And for any catalog, providers and tables that is so exactly if the pack creates
only policies that bind what may serve the class as it is stored, leaves out exactly the classes
that nothing may serve, changes no row and does nothing when it is run again. -/
theorem pack_binds_iff {db : AdminDb} (hdb : db.Valid)
    (hmodels : (db.models.map fun m => m.id).Nodup) (array : ArraySort)
    (providers : List ProviderRow) (firmId : Uuid) {r : Except Thrown ApplyPackResult} {u : Unit}
    {q : AdminSession}
    (hrun : Prog.Run env (applyDefaultPack array providers firmId u) { db := db }
      (.ret (r, u)) q) :
    ((∀ models providers', (models.map fun m : ModelRecord => m.id).Nodup →
      AdminDb.PackFits { db with models := models } array (configuredKinds providers' firmId)
        firmId) ↔ db.PackAgrees firmId) ∧
    ((BindsOnly (configuredKinds providers firmId) firmId db q.db ∧
      ∀ (r' : Except Thrown ApplyPackResult) (q' : AdminSession),
        Prog.Run env (applyDefaultPack array providers firmId u) { db := q.db } (.ret (r', u)) q' →
        q'.db = q.db) ↔ db.PackFits array (configuredKinds providers firmId) firmId) := by
  have happlied := Prog.post_of_run
    (applyDefaultPack_spec array firmId (u := u) (q := { db := db }) providers hdb) hrun
  replace happlied : PackApplied array (configuredKinds providers firmId) firmId DEFAULT_PACK db
    q.db := happlied
  refine ⟨⟨agrees_of_fits, fun h models providers' _ => fits_of_agrees h⟩,
    fun h => happlied.fits hmodels h.1, fun h => ⟨happlied.binds h, ?_⟩⟩
  intro r' q' hrun'
  have hagain := Prog.post_of_run
    (applyDefaultPack_spec array firmId (u := u) (q := { db := q.db }) providers happlied.valid)
    hrun'
  exact happlied.twice hagain

/-! ### Sample packs -/

/-- There is an id that is not in use. -/
theorem exists_fresh (ids : List Uuid) : ∃ id : Uuid, id ∉ ids := by
  obtain ⟨n, hn⟩ : ∃ n, ∀ id ∈ ids, id.text.toList.length < n := by
    induction ids with
    | nil => exact ⟨0, fun id hid => by cases hid⟩
    | cons first ids ih =>
        obtain ⟨n, hn⟩ := ih
        refine ⟨max n (first.text.toList.length + 1), fun id hid => ?_⟩
        rcases List.mem_cons.1 hid with rfl | hid
        · omega
        · have := hn id hid
          omega
  have hhex : (String.ofList (List.replicate n 'a')).toList.all isHexChar = true := by
    rw [String.toList_ofList, List.all_eq_true]
    intro c hc
    rw [List.eq_of_mem_replicate hc]
    decide
  refine ⟨⟨String.ofList (List.replicate n 'a'), hhex⟩, fun hmem => ?_⟩
  have hlength := hn _ hmem
  rw [String.toList_ofList, List.length_replicate] at hlength
  exact lt_irrefl n hlength

/-- The database answers every statement. -/
theorem AdminOp.exists_answer (db : AdminDb) (e : AdminOp) : ∃ r, AdminOp.Allows db e r := by
  cases e with
  | now => exact ⟨(0 : ℕ), trivial⟩
  | insertTaskClass contract key app description tokens version =>
      obtain ⟨id, hid⟩ := exists_fresh (db.taskClasses.map fun row => row.id)
      exact ⟨id, fun row hrow hsame => hid (List.mem_map.2 ⟨row, hrow, hsame⟩)⟩
  | insertPolicy firmId taskClassId values =>
      obtain ⟨id, hid⟩ := exists_fresh (db.policies.map fun row => row.id)
      exact ⟨id, fun row hrow hsame => hid (List.mem_map.2 ⟨row, hrow, hsame⟩)⟩
  | taskClassesByKey => exact ⟨db.taskClasses, List.Perm.refl _⟩
  | updateTaskClass id set => exact ⟨(), trivial⟩
  | updatePolicy id values => exact ⟨(), trivial⟩
  | invalidate firmId => exact ⟨(), trivial⟩
  | writeAudit entry => exact ⟨(), trivial⟩
  | _ => exact ⟨_, rfl⟩

theorem exists_admin_run {α : Type} (p : Admin α) (db : AdminDb) :
    ∃ r u q, Prog.Run env (p ()) { db := db } (.ret (r, u)) q := by
  obtain ⟨⟨r, u⟩, q, hrun⟩ := Prog.exists_run (V := env)
    (fun q e => AdminOp.exists_answer q.db e) (p ()) { db := db }
  exact ⟨r, u, q, hrun⟩

namespace Sample

/-- A sort that compares the rows one after the other. -/
def insertion : ArraySort where
  sort compare rows := rows.insertionSort fun a b => compare a b ≤ 0
  perm _ rows := List.perm_insertionSort _ rows

/-- The class of the research summaries, which the operator has tightened or not. -/
def researchClass (sensitivity : Sensitivity) : TaskClassRecord where
  id := ⟨"c2", by decide⟩
  key := "tb_research_summary"
  app := "vibe-tb"
  description := "d"
  sensitivity := sensitivity
  requires := .obj []
  defaultMaxTokens := 1024
  registeredByAppVersion := none

/-- The class, and a cloud model. -/
def researchDb (sensitivity : Sensitivity) : AdminDb where
  taskClasses := [researchClass sensitivity]
  models := [probeModel adminFirm .anthropic none]
  policies := []

theorem researchDb_valid (sensitivity : Sensitivity) : (researchDb sensitivity).Valid where
  classIds := List.nodup_singleton _
  classKeys := List.nodup_singleton _
  policyIds := List.nodup_nil
  policyKeys := List.nodup_nil
  policyClasses := by
    intro row hrow
    cases hrow

theorem researchDb_find {sensitivity : Sensitivity} {key : String} {tc : TaskClassRecord}
    (h : (researchDb sensitivity).findTaskClass key = some tc) : tc = researchClass sensitivity :=
  List.mem_singleton.1 (AdminDb.findTaskClass_mem h).1

theorem researchEntry_mem : packEntry "tb_research_summary" "vibe-tb"
    "Public-guidance research summarization" .cloud_allowed [] 8192 ∈ DEFAULT_PACK :=
  List.mem_cons_of_mem _ (List.mem_cons_of_mem _ List.mem_cons_self)

theorem researchDb_agrees : (researchDb .cloud_allowed).PackAgrees adminFirm := by
  intro entry hentry tc hunserved
  obtain rfl := researchDb_find hunserved.1
  have hkey : entry.key = "tb_research_summary" := (AdminDb.findTaskClass_mem hunserved.1).2.symm
  obtain rfl : entry = packEntry "tb_research_summary" "vibe-tb"
      "Public-guidance research summarization" .cloud_allowed [] 8192 :=
    List.inj_on_of_nodup_map default_pack_keys hentry researchEntry_mem hkey
  refine ⟨Iff.rfl, fun k hk => ?_⟩
  cases k <;> rfl

/-- Where the stored class asks what the pack asks, the cloud model is bound. -/
theorem researchDb_bound : ∃ (r : Except Thrown ApplyPackResult) (q : AdminSession),
    Prog.Run env (applyDefaultPack insertion [probeProvider adminFirm .anthropic] adminFirm ())
      { db := researchDb .cloud_allowed } (.ret (r, ())) q ∧
    BindsOnly (configuredKinds [probeProvider adminFirm .anthropic] adminFirm) adminFirm
      (researchDb .cloud_allowed) q.db := by
  obtain ⟨r, u, q, hrun⟩ := exists_admin_run
    (applyDefaultPack insertion [probeProvider adminFirm .anthropic] adminFirm)
    (researchDb .cloud_allowed)
  exact ⟨r, q, hrun, ((pack_binds_iff (researchDb_valid _) (List.nodup_singleton _) insertion
    [probeProvider adminFirm .anthropic] adminFirm hrun).2.2
    (fits_of_agrees researchDb_agrees)).1⟩

/-- The operator has tightened the class; the pack binds a cloud model for it. -/
theorem pack_binds_cloud :
    ¬∀ (db : AdminDb) (array : ArraySort) (providers : List ProviderRow) (firmId : Uuid)
      (r : Except Thrown ApplyPackResult) (u : Unit) (q : AdminSession), db.Valid →
      (db.models.map fun m => m.id).Nodup →
      Prog.Run env (applyDefaultPack array providers firmId u) { db := db } (.ret (r, u)) q →
      BindsOnly (configuredKinds providers firmId) firmId db q.db := by
  intro h
  obtain ⟨r, u, q, hrun⟩ := exists_admin_run
    (applyDefaultPack insertion [probeProvider adminFirm .anthropic] adminFirm)
    (researchDb .local_only)
  have hbinds := h _ _ _ _ r u q (researchDb_valid .local_only) (List.nodup_singleton _) hrun
  have happlied := Prog.post_of_run (applyDefaultPack_spec insertion adminFirm (u := ())
    (q := { db := researchDb .local_only }) _ (researchDb_valid .local_only)) hrun
  have hfits := PackApplied.fits happlied (List.nodup_singleton _) hbinds
  rw [configuredKinds_probe] at hfits
  have hunserved : (researchDb .local_only).Unserved adminFirm (packEntry "tb_research_summary"
      "vibe-tb" "Public-guidance research summarization" .cloud_allowed [] 8192)
      (researchClass .local_only) :=
    ⟨(researchDb_valid .local_only).findTaskClass_of_mem (List.mem_singleton_self _), rfl⟩
  have hsuits := fits_probe researchEntry_mem hunserved hfits
  have hentry : Suits (probeModel adminFirm .anthropic none).toModelRow
      (packEntry "tb_research_summary" "vibe-tb" "Public-guidance research summarization"
        .cloud_allowed [] 8192).toClassContract := by
    refine ⟨fun hlocal => (by cases hlocal), fun k hk _ => ?_⟩
    rw [probeModel_able _ _ _ hk]
    rfl
  cases (hsuits.2 hentry).place rfl

end Sample

end VibeRouter
