import VibeRouter.Policy.Engine

/-! # What selection returns

The selected model is a model of the policy, and it has no violation. -/

namespace VibeRouter

namespace ModelsById

theorem get_of_mem_values {ms : ModelsById} {m : ModelRow} (h : m ∈ ms.values) :
    ms.get m.id = some m := by
  obtain ⟨id, hid⟩ := JsMap.exists_get_of_mem_values h
  rw [ms.keyed id m hid]
  exact hid

theorem get_id {ms : ModelsById} {id : Uuid} {m : ModelRow} (h : ms.get id = some m) :
    ms.get m.id = some m := by
  rw [ms.keyed id m h]
  exact h

end ModelsById

variable {effective : EffectivePolicy} {env : AIRequest}

theorem orderedCandidates_known {m : ModelRow} (h : m ∈ orderedCandidates effective) :
    effective.modelsById.get m.id = some m := by
  simp only [orderedCandidates, List.mem_append, List.mem_filter, List.mem_filterMap] at h
  rcases h with ⟨⟨id, -, hid⟩, -⟩ | ⟨⟨id, -, hid⟩, -⟩
  · exact ModelsById.get_id hid
  · exact ModelsById.get_id hid

variable [Platform]

theorem requestedModel_known {needs : List CapabilityKey} {m : ModelRow}
    (h : requestedModel effective env needs = .ok (some m)) :
    effective.modelsById.get m.id = some m := by
  unfold requestedModel at h
  split at h
  · cases h
  · split at h
    · cases h
    · dsimp only at h
      split at h
      · cases h
      · next m' hfind =>
          have hm : m' ∈ effective.modelsById.values := List.mem_of_find?_eq_some hfind
          cases hv : modelViolation m' effective needs with
          | error e => simp [hv, bind, Except.bind] at h
          | ok v =>
              cases v with
              | some v => simp [hv, bind, Except.bind, pure, Except.pure] at h
              | none =>
                  simp only [hv, bind, Except.bind, pure, Except.pure, Except.ok.injEq,
                    Option.some.injEq] at h
                  exact h ▸ ModelsById.get_of_mem_values hm

theorem upgradeFrom_mem {needs : List CapabilityKey} {violation : Violation} {ms : List ModelRow}
    {unsatisfiable : List CapabilityKey} {m : ModelRow} {up : Option CapabilityUpgrade}
    (h : upgradeFrom effective needs violation ms unsatisfiable = .ok (m, up)) : m ∈ ms := by
  induction ms generalizing unsatisfiable with
  | nil =>
      unfold upgradeFrom at h
      split at h <;> cases h
  | cons m' ms ih =>
      unfold upgradeFrom at h
      cases hv : modelViolation m' effective needs with
      | error e => simp [hv, bind, Except.bind] at h
      | ok v =>
          cases v with
          | none =>
              simp only [hv, bind, Except.bind, pure, Except.pure, Except.ok.injEq,
                Prod.mk.injEq] at h
              exact h.1 ▸ List.mem_cons_self
          | some v =>
              simp only [hv, bind, Except.bind] at h
              exact List.mem_cons_of_mem _ (ih h)

theorem selectModelWith_known {m : ModelRow} {up : Option CapabilityUpgrade}
    (h : selectModelWith effective env = .ok (m, up)) : effective.modelsById.get m.id = some m := by
  unfold selectModelWith at h
  cases hr : requestedModel effective env (requiredCapabilities effective env) with
  | error e => simp [hr, bind, Except.bind] at h
  | ok o =>
      cases o with
      | some m' =>
          simp only [hr, bind, Except.bind, pure, Except.pure, Except.ok.injEq, Prod.mk.injEq] at h
          exact h.1 ▸ requestedModel_known hr
      | none =>
          cases hv : modelViolation effective.defaultModel effective
              (requiredCapabilities effective env) with
          | error e => simp [hr, hv, bind, Except.bind] at h
          | ok v =>
              cases v with
              | none =>
                  simp only [hr, hv, bind, Except.bind, pure, Except.pure, Except.ok.injEq,
                    Prod.mk.injEq] at h
                  exact h.1 ▸ ModelsById.get_id effective.default_known
              | some v =>
                  simp only [hr, hv, bind, Except.bind] at h
                  split at h
                  · exact orderedCandidates_known (upgradeFrom_mem h)
                  · cases h

theorem selectModel_eq_ok {m : ModelRow} (h : selectModel effective env = .ok m) :
    ∃ up, selectModelWith effective env = .ok (m, up) := by
  unfold selectModel at h
  cases hs : selectModelWith effective env with
  | error e => simp [hs, Except.map] at h
  | ok r =>
      obtain ⟨m', up⟩ := r
      simp only [hs, Except.map, Except.ok.injEq] at h
      exact ⟨up, by rw [h]⟩

theorem selectModel_known {m : ModelRow} (h : selectModel effective env = .ok m) :
    effective.modelsById.get m.id = some m := by
  obtain ⟨up, hup⟩ := selectModel_eq_ok h
  exact selectModelWith_known hup

/-- A model without violation may be used for the sensitivity of the class. -/
theorem local_of_modelViolation_none {model : ModelRow} {needs : List CapabilityKey}
    (h : modelViolation model effective needs = .ok none)
    (hs : effective.taskClass.sensitivity = .local_only) :
    isLocalKind model.providerKind = true := by
  by_contra hl
  unfold modelViolation at h
  simp only [bind, Except.bind, pure, Except.pure] at h
  split at h
  · cases h
  · rw [if_pos ⟨hs, by simpa using hl⟩] at h
    cases h

end VibeRouter
