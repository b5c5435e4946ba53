import VibeRouter.Policy.Patterns
import VibeRouter.Db.Tables
import VibeRouter.Policy.Selection
import VibeRouter.Protect.Redaction

/-! # Which model serves

A requested model that the policy allows and that fits the request is honoured.  Otherwise the
default serves, and only a default that lacks capabilities is replaced: by the first configured
model that fits, those of the local tier first. -/

namespace VibeRouter

section
variable {α : Type} [DecidableEq α]

/-- What is searched for is found where it first occurs. -/
theorem find?_uniq (p : α → Bool) (l : List α) : (uniq l).find? p = l.find? p := by
  induction l with
  | nil => rfl
  | cons a as ih =>
      rw [uniq, List.find?_cons, List.find?_cons]
      cases hp : p a with
      | true => rfl
      | false =>
          have hne : (fun b => decide (decide (b ≠ a) = true ∧ p b = true)) = p := by
            funext b
            by_cases hb : b = a
            · subst hb
              simp [hp]
            · simp [hb]
          dsimp only
          rw [List.find?_filter, ← ih, hne]

end

section
variable {effective : EffectivePolicy} {env : AIRequest} {needs : List CapabilityKey}

/-- The configured models that may stand in for the default, in their order. -/
def configured (effective : EffectivePolicy) : List ModelRow :=
  ((effective.policy.allowedModelIds ++ effective.policy.fallbackChain).filter
    (· ≠ effective.policy.defaultModelId)).filterMap effective.modelsById.get

/-- The local tier first. -/
def localFirst (ms : List ModelRow) : List ModelRow :=
  ms.filter (fun m => isLocalKind m.providerKind) ++ ms.filter fun m => !isLocalKind m.providerKind

theorem find?_orderedCandidates (p : ModelRow → Bool) :
    (orderedCandidates effective).find? p = (localFirst (configured effective)).find? p := by
  unfold orderedCandidates localFirst configured
  simp only [List.find?_append, List.find?_filter, List.find?_filterMap, find?_uniq]

theorem mem_orderedCandidates {m : ModelRow} :
    m ∈ orderedCandidates effective ↔ m ∈ configured effective := by
  unfold orderedCandidates configured
  simp only [List.mem_append, List.mem_filter, List.mem_filterMap, mem_uniq]
  cases isLocalKind m.providerKind <;> simp

/-- The models a policy names. -/
def EffectivePolicy.names (effective : EffectivePolicy) (id : Uuid) : Prop :=
  id = effective.policy.defaultModelId ∨ id ∈ effective.policy.allowedModelIds ∨
    id ∈ effective.policy.fallbackChain

theorem names_of_configured {m : ModelRow} (h : m ∈ configured effective) : effective.names m.id := by
  unfold configured at h
  obtain ⟨id, hid, hget⟩ := List.mem_filterMap.1 h
  have hmem := (List.mem_filter.1 hid).1
  rw [effective.modelsById.keyed id m hget]
  exact Or.inr (List.mem_append.1 hmem)

/-- The catalog names every model once. -/
def UniqueNames (effective : EffectivePolicy) : Prop :=
  ∀ m ∈ effective.modelsById.values, ∀ m' ∈ effective.modelsById.values,
    m.canonicalId = m'.canonicalId → m = m'

variable [Platform]

/-! ### Violations -/

/-- The model may serve the request. -/
def fits (effective : EffectivePolicy) (needs : List CapabilityKey) (m : ModelRow) : Bool :=
  match modelViolation m effective needs with
  | .ok none => true
  | _ => false

theorem fits_iff {m : ModelRow} :
    fits effective needs m = true ↔ modelViolation m effective needs = .ok none := by
  unfold fits
  split
  · next h => exact ⟨fun _ => h, fun _ => rfl⟩
  · next h => exact ⟨fun hfalse => absurd hfalse Bool.false_ne_true, fun heq => absurd heq h⟩

/-- Patterns that have all been tried can be tried on any model. -/
theorem bannedByPattern_total {patterns : List JsString} {id : String}
    (h : bannedByPattern id patterns = .ok none) (id' : String) :
    ∃ r, bannedByPattern id' patterns = .ok r := by
  induction patterns with
  | nil => exact ⟨none, rfl⟩
  | cons pattern patterns ih =>
      unfold bannedByPattern at h ⊢
      cases hr : wildcardToRegex pattern with
      | error e =>
          rw [hr] at h
          cases h
      | ok r =>
          rw [hr] at h
          simp only [bind, Except.bind, pure, Except.pure] at h ⊢
          split at h
          · cases h
          · split
            · exact ⟨_, rfl⟩
            · exact ih h

theorem modelBanned_total {m : ModelRow} {settings : FirmSettings}
    (h : modelBanned m settings = .ok none) (m' : ModelRow) : ∃ r, modelBanned m' settings = .ok r := by
  unfold modelBanned at h ⊢
  simp only [bind, Except.bind, pure, Except.pure] at h ⊢
  split at h
  · cases h
  · split
    · exact ⟨_, rfl⟩
    · cases hp : bannedByPattern m.canonicalId settings.banned_model_patterns with
      | error e => simp [hp] at h
      | ok o =>
          cases o with
          | some pattern => simp [hp] at h
          | none =>
              obtain ⟨r, hr⟩ := bannedByPattern_total hp m'.canonicalId
              rw [hr]
              cases r with
              | none => exact ⟨_, rfl⟩
              | some pattern => exact ⟨_, rfl⟩

/-- A pattern that cannot be read throws, and it throws no router error. -/
theorem wildcardParse_error {pattern : JsString} {e : Thrown} (h : wildcardParse pattern = .error e) :
    e = nothingToRepeat := by
  have hmap : ∀ {r : Except Thrown Regex} {f : Regex → Regex},
      (r = .error e → e = nothingToRepeat) → r.map f = .error e → e = nothingToRepeat := by
    intro r f hr hmapped
    cases r with
    | error e' =>
        cases hmapped
        exact hr rfl
    | ok r => cases hmapped
  fun_induction wildcardParse pattern with
  | case1 => cases h
  | case4 =>
      cases h
      rfl
  | case2 rest star ih | case3 rest hrest star ih => exact hmap ih h
  | case5 c hstar hplain opt rest ih => exact hmap ih h
  | case6 c hstar hplain opt rest hrest ih => exact hmap ih h
  | case7 c hstar hplain rest hrest hrest' ih => exact hmap ih h

theorem bannedByPattern_error {patterns : List JsString} {id : String} {e : Thrown}
    (h : bannedByPattern id patterns = .error e) : e = nothingToRepeat := by
  induction patterns with
  | nil => cases h
  | cons pattern patterns ih =>
      unfold bannedByPattern wildcardToRegex at h
      cases hr : wildcardParse pattern with
      | error e' =>
          rw [hr] at h
          cases h
          exact wildcardParse_error hr
      | ok r =>
          rw [hr] at h
          simp only [bind, Except.bind, pure, Except.pure, Except.map] at h
          split at h
          · cases h
          · exact ih h

theorem modelViolation_error {m : ModelRow} {e : Thrown}
    (h : modelViolation m effective needs = .error e) : e = nothingToRepeat := by
  unfold modelViolation modelBanned at h
  simp only [bind, Except.bind, pure, Except.pure] at h
  split at h
  · cases h
  split at h
  · cases h
  split at h
  · next e' herror =>
      cases h
      split at herror
      · cases herror
      · split at herror
        · next hpattern =>
            cases herror
            exact bannedByPattern_error hpattern
        · next o hpattern => cases o <;> cases herror
  · next o hbanned =>
      cases o with
      | some reason => cases h
      | none =>
          dsimp only at h
          split at h <;> cases h

/-- A sunset, banned or sensitivity-barred model. -/
def Barred (effective : EffectivePolicy) (m : ModelRow) : Prop :=
  m.status = .sunset ∨
    effective.taskClass.sensitivity = .local_only ∧ isLocalKind m.providerKind = false ∨
    ∃ reason, modelBanned m effective.firmSettings = .ok (some reason)

/-- What a violation says about the model. -/
theorem modelViolation_cases {m : ModelRow} {v : Violation}
    (h : modelViolation m effective needs = .ok (some v)) :
    (v.code = .policy_blocked ∧ Barred effective m) ∨
      (v.code = .capability_missing ∧ v.missing = missingCapabilities m needs ∧
        ¬Barred effective m ∧ modelBanned m effective.firmSettings = .ok none) := by
  unfold modelViolation at h
  simp only [bind, Except.bind, pure, Except.pure] at h
  split at h
  · next hsunset =>
      cases h
      exact Or.inl ⟨rfl, Or.inl hsunset⟩
  next hsunset =>
  split at h
  · next hlocal =>
      cases h
      exact Or.inl ⟨rfl, Or.inr (Or.inl ⟨hlocal.1, by simpa using hlocal.2⟩)⟩
  next hlocal =>
  cases hbanned : modelBanned m effective.firmSettings with
  | error e => simp [hbanned] at h
  | ok o =>
      cases o with
      | some reason =>
          simp only [hbanned, Except.ok.injEq, Option.some.injEq] at h
          exact Or.inl ⟨h ▸ rfl, Or.inr (Or.inr ⟨reason, hbanned⟩)⟩
      | none =>
          simp only [hbanned] at h
          split at h
          · cases h
            refine Or.inr ⟨rfl, rfl, ?_, rfl⟩
            intro hbarred
            rcases hbarred with hb | hb | ⟨reason, hb⟩
            · exact hsunset hb
            · exact hlocal ⟨hb.1, by simp [hb.2]⟩
            · rw [hbanned] at hb
              cases hb
          · cases h

/-- A barred model does not fit, and lacks no capability. -/
theorem modelViolation_of_barred (needs : List CapabilityKey) {m : ModelRow} (h : Barred effective m) :
    modelViolation m effective needs ≠ .ok none ∧
      ∀ v, modelViolation m effective needs = .ok (some v) → v.code ≠ .capability_missing := by
  constructor
  · intro hnone
    unfold modelViolation at hnone
    simp only [bind, Except.bind, pure, Except.pure] at hnone
    split at hnone
    · cases hnone
    next hsunset =>
    split at hnone
    · cases hnone
    next hlocal =>
    rcases h with hb | hb | ⟨reason, hb⟩
    · exact hsunset hb
    · exact hlocal ⟨hb.1, by simp [hb.2]⟩
    · rw [hb] at hnone
      cases hnone
  · intro v hv
    rcases modelViolation_cases hv with ⟨hcode, -⟩ | ⟨-, -, hnot, -⟩
    · rw [hcode]
      decide
    · exact absurd h hnot

/-- Once the patterns have been tried on one model, every model can be judged. -/
theorem modelViolation_total {m : ModelRow} {settings : FirmSettings}
    (hs : effective.firmSettings = settings) (h : modelBanned m settings = .ok none)
    (m' : ModelRow) : ∃ r, modelViolation m' effective needs = .ok r := by
  obtain ⟨r, hr⟩ := modelBanned_total h m'
  unfold modelViolation
  simp only [bind, Except.bind, pure, Except.pure, hs, hr]
  split
  · exact ⟨_, rfl⟩
  split
  · exact ⟨_, rfl⟩
  cases r with
  | some reason => exact ⟨_, rfl⟩
  | none =>
      dsimp only
      split
      · exact ⟨_, rfl⟩
      · exact ⟨_, rfl⟩

/-! ### The scan for a substitute -/

/-- The model has a capability gap that includes `c`. -/
def Lacks (effective : EffectivePolicy) (needs : List CapabilityKey) (c : CapabilityKey)
    (m : ModelRow) : Prop :=
  ∀ v, modelViolation m effective needs = .ok (some v) → v.code = .capability_missing →
    c ∈ v.missing

/-- A substitute is the first candidate that fits. -/
theorem upgradeFrom_find {violation : Violation} {ms : List ModelRow}
    {unsatisfiable : List CapabilityKey} {m : ModelRow} {up : Option CapabilityUpgrade}
    (h : upgradeFrom effective needs violation ms unsatisfiable = .ok (m, up)) :
    ms.find? (fits effective needs) = some m := by
  induction ms generalizing unsatisfiable with
  | nil =>
      unfold upgradeFrom at h
      split at h <;> cases h
  | cons m' ms ih =>
      unfold upgradeFrom at h
      rw [List.find?_cons]
      cases hv : modelViolation m' effective needs with
      | error e => simp [hv, bind, Except.bind] at h
      | ok o =>
          cases o with
          | none =>
              simp only [hv, bind, Except.bind, pure, Except.pure, Except.ok.injEq,
                Prod.mk.injEq] at h
              rw [fits_iff.2 hv, h.1]
          | some v =>
              simp only [hv, bind, Except.bind] at h
              have hnot : fits effective needs m' = false := by
                rw [Bool.eq_false_iff, ne_eq, fits_iff, hv]
                intro heq
                cases heq
              rw [hnot]
              exact ih h

/-- A candidate that fits is found, when every model can be judged. -/
theorem upgradeFrom_some (violation : Violation) {ms : List ModelRow}
    (unsatisfiable : List CapabilityKey) {m : ModelRow}
    (htotal : ∀ m, ∃ r, modelViolation m effective needs = .ok r) (hm : m ∈ ms)
    (hfits : fits effective needs m = true) :
    ∃ r, upgradeFrom effective needs violation ms unsatisfiable = .ok r := by
  induction ms generalizing unsatisfiable with
  | nil => cases hm
  | cons m' ms ih =>
      unfold upgradeFrom
      obtain ⟨r, hr⟩ := htotal m'
      cases r with
      | none =>
          simp only [hr, bind, Except.bind, pure, Except.pure]
          exact ⟨_, rfl⟩
      | some v =>
          simp only [hr, bind, Except.bind]
          rcases List.mem_cons.1 hm with rfl | hm
          · rw [fits_iff.1 hfits] at hr
            cases hr
          · exact ih _ hm

/-- When no candidate fits, vision is the reason exactly when every gap includes it. -/
theorem upgradeFrom_none {violation : Violation} {ms : List ModelRow}
    (unsatisfiable : List CapabilityKey) (hcode : violation.code = .capability_missing)
    (htotal : ∀ m, ∃ r, modelViolation m effective needs = .ok r)
    (hnone : ms.find? (fits effective needs) = none) :
    ∃ e, upgradeFrom effective needs violation ms unsatisfiable = .error (.router e) ∧
      (e.code = .no_vision_provider ↔
        .vision ∈ unsatisfiable ∧ ∀ m ∈ ms, Lacks effective needs .vision m) := by
  induction ms generalizing unsatisfiable with
  | nil =>
      unfold upgradeFrom
      split
      · next hvision =>
          refine ⟨_, rfl, fun _ => ⟨by simpa using hvision, ?_⟩, fun _ => rfl⟩
          intro m hm
          cases hm
      · next hvision =>
          refine ⟨_, rfl, ?_, ?_⟩
          · intro h
            replace h : violation.code = .no_vision_provider := h
            rw [hcode] at h
            cases h
          · intro h
            exact absurd (by simpa using h.1) hvision
  | cons m ms ih =>
      rw [List.find?_cons] at hnone
      obtain ⟨r, hr⟩ := htotal m
      have hnot : fits effective needs m = false := by
        cases hfits : fits effective needs m with
        | false => rfl
        | true =>
            rw [hfits] at hnone
            cases hnone
      rw [hnot] at hnone
      cases r with
      | none =>
          rw [fits_iff.2 hr] at hnot
          cases hnot
      | some v =>
          unfold upgradeFrom
          simp only [hr, bind, Except.bind]
          obtain ⟨e, he, hiff⟩ := ih (if v.code = .capability_missing then
            unsatisfiable.filter v.missing.contains else unsatisfiable) hnone
          refine ⟨e, he, hiff.trans ?_⟩
          have hlacks : Lacks effective needs .vision m ↔
              (v.code = .capability_missing → .vision ∈ v.missing) := by
            constructor
            · exact fun h => h v hr
            · intro h v' hv' hmissing
              rw [hr, Except.ok.injEq, Option.some.injEq] at hv'
              subst hv'
              exact h hmissing
          rw [List.forall_mem_cons, hlacks]
          by_cases hmissing : v.code = .capability_missing
          · simp [hmissing, and_assoc]
          · simp [hmissing]

/-! ### The whole selection -/

/-- The request names the model. -/
def Requests (env : AIRequest) (m : ModelRow) : Prop :=
  env.modelRequested = some m.canonicalId ∧ m.canonicalId ≠ ""

/-- The requested model is one the policy allows, and it fits. -/
def Honoured (effective : EffectivePolicy) (env : AIRequest) (m : ModelRow) : Prop :=
  m ∈ effective.modelsById.values ∧ Requests env m ∧
    (m.id = effective.policy.defaultModelId ∨ m.id ∈ effective.policy.allowedModelIds) ∧
    modelViolation m effective (requiredCapabilities effective env) = .ok none

theorem requestedModel_honoured {m : ModelRow}
    (h : requestedModel effective env (requiredCapabilities effective env) = .ok (some m)) :
    Honoured effective env m := by
  unfold requestedModel at h
  split at h
  · cases h
  next requested hrequested =>
  split at h
  · cases h
  next hne =>
  dsimp only at h
  split at h
  · cases h
  next m' hfind =>
  have hprop := List.find?_some hfind
  rw [Bool.and_eq_true, decide_eq_true_eq] at hprop
  cases hv : modelViolation m' effective (requiredCapabilities effective env) with
  | error e => simp [hv, bind, Except.bind] at h
  | ok o =>
      cases o with
      | some v => simp [hv, bind, Except.bind, pure, Except.pure] at h
      | none =>
          simp only [hv, bind, Except.bind, pure, Except.pure, Except.ok.injEq,
            Option.some.injEq] at h
          subst h
          refine ⟨List.mem_of_find?_eq_some hfind, ⟨?_, ?_⟩, ?_, hv⟩
          · rw [hrequested, hprop.1]
          · rw [hprop.1]
            exact hne
          · simpa using hprop.2

/-- With unique names the model that is found is the one that is meant. -/
theorem requestedModel_of_honoured (hunique : UniqueNames effective) {m : ModelRow}
    (h : Honoured effective env m) :
    requestedModel effective env (requiredCapabilities effective env) = .ok (some m) := by
  obtain ⟨hmem, ⟨hrequested, hne⟩, hid, hv⟩ := h
  have hallowed : (effective.policy.defaultModelId :: effective.policy.allowedModelIds).contains
      m.id = true := by
    simpa using hid
  have hfind : effective.modelsById.values.find? (fun m' => m'.canonicalId = m.canonicalId &&
      (effective.policy.defaultModelId :: effective.policy.allowedModelIds).contains m'.id) =
        some m := by
    cases hfind : effective.modelsById.values.find? fun m' => m'.canonicalId = m.canonicalId &&
        (effective.policy.defaultModelId :: effective.policy.allowedModelIds).contains m'.id with
    | none =>
        have hnot := List.find?_eq_none.1 hfind m hmem
        rw [hallowed] at hnot
        simp at hnot
    | some m' =>
        have hprop := List.find?_some hfind
        rw [Bool.and_eq_true, decide_eq_true_eq] at hprop
        rw [hunique m' (List.mem_of_find?_eq_some hfind) m hmem hprop.1]
  unfold requestedModel
  simp only [hrequested, if_neg hne, hfind, hv, bind, Except.bind, pure, Except.pure]

theorem selectModel_honoured (hunique : UniqueNames effective) {m : ModelRow}
    (h : Honoured effective env m) : selectModel effective env = .ok m := by
  unfold selectModel selectModelWith
  simp only [requestedModel_of_honoured hunique h, bind, Except.bind, pure, Except.pure, Except.map]

/-- What selection comes to when no requested model is honoured. -/
theorem selectModelWith_default
    (h : requestedModel effective env (requiredCapabilities effective env) = .ok none) :
    selectModelWith effective env =
      match modelViolation effective.defaultModel effective (requiredCapabilities effective env) with
      | .error e => .error e
      | .ok none => .ok (effective.defaultModel, none)
      | .ok (some violation) =>
          if violation.code = .capability_missing then
            upgradeFrom effective (requiredCapabilities effective env) violation
              (orderedCandidates effective) violation.missing
          else routerError violation.code violation.reason := by
  unfold selectModelWith
  simp only [h, bind, Except.bind, pure, Except.pure]
  cases modelViolation effective.defaultModel effective (requiredCapabilities effective env) with
  | error e => rfl
  | ok o => cases o <;> rfl

/-- Three ways for a selection to go. -/
theorem selectModel_cases {m : ModelRow} (h : selectModel effective env = .ok m) :
    Honoured effective env m ∨
      (m = effective.defaultModel ∧
        modelViolation m effective (requiredCapabilities effective env) = .ok none) ∨
      (∃ v, modelViolation effective.defaultModel effective (requiredCapabilities effective env) =
          .ok (some v) ∧ v.code = .capability_missing) ∧
        (localFirst (configured effective)).find?
          (fits effective (requiredCapabilities effective env)) = some m := by
  obtain ⟨up, hup⟩ := selectModel_eq_ok h
  cases hr : requestedModel effective env (requiredCapabilities effective env) with
  | error e =>
      unfold selectModelWith at hup
      simp [hr, bind, Except.bind] at hup
  | ok o =>
      cases o with
      | some m' =>
          unfold selectModelWith at hup
          simp only [hr, bind, Except.bind, pure, Except.pure, Except.ok.injEq,
            Prod.mk.injEq] at hup
          exact Or.inl (hup.1 ▸ requestedModel_honoured hr)
      | none =>
          rw [selectModelWith_default hr] at hup
          split at hup
          · cases hup
          · next hv =>
              rw [Except.ok.injEq, Prod.mk.injEq] at hup
              exact Or.inr (Or.inl ⟨hup.1.symm, hup.1 ▸ hv⟩)
          · next v hv =>
              split at hup
              · next hcode =>
                  refine Or.inr (Or.inr ⟨⟨v, hv, hcode⟩, ?_⟩)
                  rw [← find?_orderedCandidates]
                  exact upgradeFrom_find hup
              · cases hup

/-- No requested model is honoured. -/
def Unhonoured (effective : EffectivePolicy) (env : AIRequest) : Prop :=
  ∀ m, ¬Honoured effective env m

/-- A default that lacks capabilities has passed the patterns, so every model can be judged. -/
theorem total_of_capability_missing {v : Violation}
    (hv : modelViolation effective.defaultModel effective needs = .ok (some v))
    (hcode : v.code = .capability_missing) (needs' : List CapabilityKey) (m : ModelRow) :
    ∃ r, modelViolation m effective needs' = .ok r := by
  rcases modelViolation_cases hv with ⟨hblocked, -⟩ | ⟨-, -, -, hbanned⟩
  · rw [hcode] at hblocked
    cases hblocked
  · exact modelViolation_total rfl hbanned m

/-- Without a throw, an unhonoured request is one without a requested model. -/
theorem requestedModel_none (hnot : Unhonoured effective env)
    (htotal : ∀ m, ∃ r, modelViolation m effective (requiredCapabilities effective env) = .ok r) :
    requestedModel effective env (requiredCapabilities effective env) = .ok none := by
  cases hr : requestedModel effective env (requiredCapabilities effective env) with
  | ok o =>
      cases o with
      | none => rfl
      | some m => exact absurd (requestedModel_honoured hr) (hnot m)
  | error e =>
      unfold requestedModel at hr
      split at hr
      · cases hr
      split at hr
      · cases hr
      dsimp only at hr
      split at hr
      · cases hr
      next m' hfind =>
      obtain ⟨r, hv⟩ := htotal m'
      cases r <;> simp [hv, bind, Except.bind, pure, Except.pure] at hr

/-- What is thrown when the default lacks capabilities and no candidate fits. -/
theorem selectModel_exhausted (hnot : Unhonoured effective env) {v : Violation}
    (hv : modelViolation effective.defaultModel effective (requiredCapabilities effective env) =
      .ok (some v)) (hcode : v.code = .capability_missing)
    (hnone : ∀ m ∈ configured effective,
      modelViolation m effective (requiredCapabilities effective env) ≠ .ok none) :
    ∃ e, selectModel effective env = .error (.router e) ∧
      (e.code = .no_vision_provider ↔ .vision ∈ v.missing ∧
        ∀ m ∈ configured effective, Lacks effective (requiredCapabilities effective env) .vision m) := by
  have htotal := total_of_capability_missing hv hcode (requiredCapabilities effective env)
  have hfind : (orderedCandidates effective).find?
      (fits effective (requiredCapabilities effective env)) = none := by
    rw [List.find?_eq_none]
    intro m hm hfits
    exact hnone m (mem_orderedCandidates.1 hm) (fits_iff.1 hfits)
  obtain ⟨e, he, hiff⟩ := upgradeFrom_none v.missing hcode htotal hfind
  refine ⟨e, ?_, ?_⟩
  · unfold selectModel
    rw [selectModelWith_default (requestedModel_none hnot htotal), hv]
    dsimp only
    rw [if_pos hcode, he]
    rfl
  · simp only [hiff, mem_orderedCandidates]

theorem requestedModel_error {e : Thrown}
    (h : requestedModel effective env needs = .error e) : e = nothingToRepeat := by
  unfold requestedModel at h
  split at h
  · cases h
  split at h
  · cases h
  dsimp only at h
  split at h
  · cases h
  next m' hfind =>
  cases hv : modelViolation m' effective needs with
  | error e' =>
      simp only [hv, bind, Except.bind] at h
      cases h
      exact modelViolation_error hv
  | ok o => cases o <;> simp [hv, bind, Except.bind, pure, Except.pure] at h

/-- `no_vision_provider` comes from that case alone. -/
theorem exhausted_of_no_vision {e : RouterError} (hnot : Unhonoured effective env)
    (h : selectModel effective env = .error (.router e)) (hcode : e.code = .no_vision_provider) :
    ∃ v, modelViolation effective.defaultModel effective (requiredCapabilities effective env) =
        .ok (some v) ∧ v.code = .capability_missing ∧
      ∀ m ∈ configured effective,
        modelViolation m effective (requiredCapabilities effective env) ≠ .ok none := by
  have herror : selectModelWith effective env = .error (.router e) := by
    unfold selectModel at h
    cases hs : selectModelWith effective env with
    | error e' =>
        rw [hs] at h
        cases h
        rfl
    | ok r =>
        rw [hs] at h
        cases h
  cases hr : requestedModel effective env (requiredCapabilities effective env) with
  | error e' =>
      unfold selectModelWith at herror
      simp only [hr, bind, Except.bind, Except.error.injEq] at herror
      rw [requestedModel_error hr] at herror
      cases herror
  | ok o =>
      cases o with
      | some m => exact absurd (requestedModel_honoured hr) (hnot m)
      | none =>
          rw [selectModelWith_default hr] at herror
          split at herror
          · next e' hv =>
              rw [modelViolation_error hv] at herror
              cases herror
          · cases herror
          · next v hv =>
              split at herror
              · next hmissing =>
                  refine ⟨v, hv, hmissing, ?_⟩
                  intro m hm hfits
                  have htotal := total_of_capability_missing hv hmissing
                    (requiredCapabilities effective env)
                  obtain ⟨r, hok⟩ := upgradeFrom_some v v.missing htotal
                    (mem_orderedCandidates.2 hm) (fits_iff.2 hfits)
                  rw [herror] at hok
                  cases hok
              · rcases modelViolation_cases hv with ⟨hblocked, -⟩ | ⟨hmissing, -⟩
                · cases herror
                  replace hcode : v.code = .no_vision_provider := hcode
                  rw [hblocked] at hcode
                  cases hcode
                · contradiction

/-- What is returned is a model the policy names, and it fits. -/
theorem selectModel_names {m : ModelRow} (h : selectModel effective env = .ok m) :
    effective.names m.id ∧
      modelViolation m effective (requiredCapabilities effective env) = .ok none := by
  rcases selectModel_cases h with hhonoured | ⟨hdefault, hv⟩ | ⟨-, hfind⟩
  · obtain ⟨-, -, hid, hv⟩ := hhonoured
    exact ⟨hid.imp_right Or.inl, hv⟩
  · rw [hdefault] at hv ⊢
    exact ⟨Or.inl (effective.modelsById.keyed _ _ effective.default_known), hv⟩
  · rw [← find?_orderedCandidates] at hfind
    have hmem := mem_orderedCandidates.1 (List.mem_of_find?_eq_some hfind)
    exact ⟨names_of_configured hmem, fits_iff.1 (List.find?_some hfind)⟩

/-- **Model selection.**  The selected model is one of the policy's and fits; a requested model that
is allowed and fits is honoured; only a default that lacks capabilities is replaced, by the first
configured model that fits, the local tier first; `no_vision_provider` says that every gap includes
vision; and redaction changes nothing. -/
theorem selectModel_spec (effective : EffectivePolicy) (env : AIRequest)
    (hunique : UniqueNames effective) :
    (∀ m, selectModel effective env = .ok m →
      effective.names m.id ∧ effective.modelsById.get m.id = some m ∧
        modelViolation m effective (requiredCapabilities effective env) = .ok none) ∧
    (∀ m, Honoured effective env m → selectModel effective env = .ok m) ∧
    (∀ m, selectModel effective env = .ok m → ¬Honoured effective env m →
      m ≠ effective.defaultModel →
        (∃ v, modelViolation effective.defaultModel effective (requiredCapabilities effective env) =
          .ok (some v) ∧ v.code = .capability_missing) ∧
        (localFirst (configured effective)).find?
          (fits effective (requiredCapabilities effective env)) = some m) ∧
    (∀ m, Barred effective effective.defaultModel → selectModel effective env = .ok m →
      Honoured effective env m) ∧
    (Unhonoured effective env →
      ((∃ e, selectModel effective env = .error (.router e) ∧ e.code = .no_vision_provider) ↔
        ∃ v, modelViolation effective.defaultModel effective (requiredCapabilities effective env) =
            .ok (some v) ∧ v.code = .capability_missing ∧
          (∀ m ∈ configured effective,
            modelViolation m effective (requiredCapabilities effective env) ≠ .ok none) ∧
          .vision ∈ v.missing ∧
          ∀ m ∈ configured effective,
            Lacks effective (requiredCapabilities effective env) .vision m)) ∧
    selectModel effective (redactEnvelope env).1 = selectModel effective env := by
  refine ⟨fun m h => ?_, fun m h => selectModel_honoured hunique h, fun m h hnot hne => ?_,
    fun m hbarred h => ?_, fun hnot => ⟨fun h => ?_, fun h => ?_⟩,
    (redactEnvelope_sameShape env).selectModel effective⟩
  · obtain ⟨hnames, hv⟩ := selectModel_names h
    exact ⟨hnames, selectModel_known h, hv⟩
  · rcases selectModel_cases h with hhonoured | ⟨hdefault, -⟩ | hsubstitute
    · exact absurd hhonoured hnot
    · exact absurd hdefault hne
    · exact hsubstitute
  · obtain ⟨hunfit, hblocked⟩ := modelViolation_of_barred
      (requiredCapabilities effective env) hbarred
    rcases selectModel_cases h with hhonoured | ⟨hdefault, hv⟩ | ⟨⟨v, hv, hcode⟩, -⟩
    · exact hhonoured
    · rw [hdefault] at hv
      exact absurd hv hunfit
    · exact absurd hcode (hblocked v hv)
  · obtain ⟨e, herror, hcode⟩ := h
    obtain ⟨v, hv, hmissing, hnone⟩ := exhausted_of_no_vision hnot herror hcode
    obtain ⟨e', herror', hiff⟩ := selectModel_exhausted hnot hv hmissing hnone
    rw [herror, Except.error.injEq, Thrown.router.injEq] at herror'
    exact ⟨v, hv, hmissing, hnone, hiff.1 (herror' ▸ hcode)⟩
  · obtain ⟨v, hv, hmissing, hnone, hvision⟩ := h
    obtain ⟨e, herror, hiff⟩ := selectModel_exhausted hnot hv hmissing hnone
    exact ⟨e, herror, hiff.2 hvision⟩

end

namespace Sample

theorem unique_names {effective : EffectivePolicy} {m₁ m₂ : ModelRow}
    (hvalues : effective.modelsById.values = [m₁, m₂]) (hne : m₁.canonicalId ≠ m₂.canonicalId) :
    UniqueNames effective := by
  intro m hm m' hm' hname
  rw [hvalues] at hm hm'
  rcases List.mem_pair.1 hm with rfl | rfl
  · rcases List.mem_pair.1 hm' with rfl | rfl
    · rfl
    · exact absurd hname hne
  · rcases List.mem_pair.1 hm' with rfl | rfl
    · exact absurd hname.symm hne
    · rfl

/-- A request that names the default. -/
def namingDefault : AIRequest := { request "hello" with modelRequested := some "claude-sonnet" }

theorem namingDefault_honoured : letI := platform
    Honoured (effective []) namingDefault cloudModel := by
  let := platform
  exact ⟨List.mem_cons_self, ⟨rfl, by decide⟩, Or.inl rfl, rfl⟩

def seeingModel : ModelRow := { localModel with capabilities := { vision := some true } }

/-- A policy whose default cannot see and whose fallback can. -/
def seeing : EffectivePolicy :=
  { effective [localModelId] with
    modelsById := .ofRows [cloudModel, seeingModel], default_known := rfl }

/-- It names the default too, and has a picture. -/
def picture : AIRequest :=
  { namingDefault with
    messages := [{ role := .user
                   content := .parts [.text (js "is this 123-45-6789?"), .image (js "data:")] }] }

theorem picture_selects : letI := platform
    selectModel seeing picture = .ok seeingModel ∧
      ∀ m, ¬Honoured seeing picture m := by
  let := platform
  refine ⟨rfl, ?_⟩
  rintro m ⟨hm, ⟨hname, -⟩, -, hv⟩
  have hvalues : seeing.modelsById.values = [cloudModel, seeingModel] := rfl
  rw [hvalues] at hm
  rcases List.mem_pair.1 hm with rfl | rfl
  · cases hv
  · exact absurd hname (by decide)

/-- The default is served when it is asked for and fits; a request that the default cannot serve goes
to the fallback, redacted or not. -/
theorem selectModel_effective : letI := platform
    selectModel (effective []) namingDefault = .ok cloudModel ∧
      (∃ v, modelViolation seeing.defaultModel seeing (requiredCapabilities seeing picture) =
        .ok (some v) ∧ v.code = .capability_missing) ∧
      selectModel seeing (redactEnvelope picture).1 = .ok seeingModel := by
  let := platform
  have hnamed := selectModel_spec (effective []) namingDefault (unique_names rfl (by decide))
  have hseen := selectModel_spec seeing picture (unique_names rfl (by decide))
  obtain ⟨hpicture, hnot⟩ := picture_selects
  have hsubstitute := hseen.2.2.1 seeingModel hpicture (hnot seeingModel) (by decide)
  exact ⟨hnamed.2.1 cloudModel namingDefault_honoured, hsubstitute.1,
    hseen.2.2.2.2.2.trans hpicture⟩

end Sample

end VibeRouter
